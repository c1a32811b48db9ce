import BicepMigration.Proofs.Template.ReturnedTokens
import BicepMigration.Proofs.Template.SeenStatements
import BicepMigration.Template.SymbolUse

/-!
# Statements of lines that end with carriage returns

Statements and uses are read from the kinds of tokens, from the texts of words and strings, and from lines. Carriage
returns before newlines change none of that. Main statement: the text with carriage returns has the same statements and the
same uses, apart from places in bytes and from the texts that fragments are cut out of.
-/

namespace BicepMigration.Template

open Text

section Statements

variable {source : String}

/-- Spans as they are, and no texts. -/
def Aspect.outline : Aspect := ⟨fun _ => ⟨"", none⟩, fun _ => "", id, id⟩

/-- Spans as they stand in the text with carriage returns, and no texts. -/
def Aspect.returned (source : String) : Aspect := { Aspect.outline with span := Span.returned source }

/-- Tokens before carriage returns resemble those behind them. -/
theorem resembles_returned (source : String) : Resembles (Token.returned source) where
  kind t := by
    unfold Token.returned
    split <;> rfl
  text t h := by
    unfold Token.returned
    split <;> rfl

/-- The span of a token moves with the text, newlines apart. -/
theorem span_returned {t : Token} (h : t.kind ≠ .newline) : (t.returned source).span = t.span.returned source := by
  rw [Token.returned, if_neg h]

/-- A newline too ends where it ended. -/
theorem stop_returned (t : Token) : (t.returned source).span.stop = returnedPlace source t.span.stop := by
  unfold Token.returned
  split <;> rfl

/-- The line of a token stays. -/
theorem line_returned (t : Token) : (t.returned source).line = t.line := by
  unfold Token.returned
  split <;> rfl

/-- Tokens are seen alike, apart from texts. -/
theorem seenAlike_returned (source : String) (toks : List Token) :
    SeenAlike (.returned source) .outline source (Text.returned source) (Token.returned source) toks where
  toResembles := resembles_returned source
  fragment _ _ _ := rfl
  number _ _ _ := rfl
  span first others hfirst _ := by
    have hstop : ((others.map (Token.returned source)).getLast?.getD (first.returned source)).span.stop =
        returnedPlace source (others.getLast?.getD first).span.stop := by
      rw [List.getLast?_map]
      cases others.getLast? with
      | none => exact stop_returned first
      | some t => exact stop_returned t
    rw [hstop, span_returned hfirst]
    rfl
  line t _ := line_returned t
  meets a b hb _ := by
    rw [stop_returned, span_returned hb]
    exact (strictMono_returnedPlace source).injective.eq_iff

end Statements

section Uses

variable {g : Token → Token}

namespace Resembles

/-- Members are found alike. -/
theorem memberTokens (h : Resembles g) : ∀ toks, memberTokens (toks.map g) = (memberTokens toks).map g
  | [] => rfl
  | [_] => rfl
  | point :: name :: rest => by
    simp only [List.map_cons, Template.memberTokens, h.kind]
    split
    · rw [memberTokens h rest, List.map_cons]
    · rfl

/-- The bracket around a token is found alike. -/
theorem enclosingBracket (h : Resembles g) (closed : Nat) (toks : List Token) :
    enclosingBracket closed (toks.map g) = (enclosingBracket closed toks).map g := by
  fun_induction Template.enclosingBracket closed toks <;> simp_all [Template.enclosingBracket, h.kind]

/-- Elements of dependencies are told alike. -/
theorem isDependsOnElement (h : Resembles g) (before after : List Token) :
    isDependsOnElement (before.map g) (after.map g) = isDependsOnElement before after := by
  unfold Template.isDependsOnElement
  rw [h.head?_any (fun k => k = .bracketOpen || k.separates), h.head?_any (fun k => k = .bracketClose || k.separates),
    h.enclosingBracket]
  refine congrArg _ ?_
  match Template.enclosingBracket 0 before with
  | bracket :: colon :: key :: _ => simp only [List.map_cons, h.kind, h.isWord]
  | [] | [_] | [_, _] => rfl

/-- Places of values are told alike. -/
theorem isValuePosition (h : Resembles g) (before after : List Token) :
    isValuePosition (before.map g) (after.map g) = isValuePosition before after := by
  unfold Template.isValuePosition isKeyPosition
  have hopening : (before.map g).head?.all (fun t => t.kind = .braceOpen || t.kind.separates) =
      before.head?.all fun t => t.kind = .braceOpen || t.kind.separates := by
    cases before with
    | nil => rfl
    | cons t _ => simp [h.kind]
  have hdeclaring : (before.map g).head?.any (fun t => t.kind = .identifier && declaringWords.contains t.text) =
      before.head?.any fun t => t.kind = .identifier && declaringWords.contains t.text := by
    cases before with
    | nil => rfl
    | cons t _ =>
      by_cases hk : t.kind = .identifier
      · simp [h.kind, h.text_of_kind hk (by decide)]
      · simp [h.kind, hk]
  rw [h.head?_any (fun k => k = .dot), h.head?_any (fun k => k = .colon), hopening, hdeclaring]

end Resembles

/-- The use with its ends in other places. -/
def SymbolUse.placed (place : Nat → Nat) (use : SymbolUse) : SymbolUse :=
  { use with span := ⟨place use.span.start, place use.span.stop⟩ }

/-- Members are identifiers. -/
theorem kind_of_mem_memberTokens {t : Token} : ∀ {toks : List Token}, t ∈ memberTokens toks → t.kind = .identifier
  | [], h => nomatch h
  | [_], h => nomatch h
  | point :: name :: rest, h => by
    rw [memberTokens] at h
    split at h
    · next hmember =>
      rcases List.mem_cons.1 h with rfl | h
      · simpa using (Bool.and_eq_true_iff.1 hmember).2
      · exact kind_of_mem_memberTokens h
    · cases h

/-- Names stay on their lines and in their columns, and their ends are put in other places. -/
def PlacesNames (g : Token → Token) (place : Nat → Nat) : Prop :=
  ∀ t, t.kind = .identifier →
    (g t).span = ⟨place t.span.start, place t.span.stop⟩ ∧ (g t).line = t.line ∧ (g t).column = t.column

/-- A use is described alike, its place apart. -/
theorem at_map {place : Nat → Nat} (h : Resembles g) (hplace : PlacesNames g place) (before after : List Token)
    {t : Token} (ht : t.kind = .identifier) :
    SymbolUse.at (before.map g) (g t) (after.map g) = (SymbolUse.at before t after).placed place := by
  obtain ⟨hspan, hline, hcolumn⟩ := hplace t ht
  have hname (u : Token) (hu : u ∈ memberTokens after) : (g u).text = u.text :=
    h.text_of_kind (kind_of_mem_memberTokens hu) (by decide)
  have hpath : ((memberTokens after).map g).map (·.text) = (memberTokens after).map (·.text) := by
    rw [List.map_map]
    exact List.map_congr_left hname
  have hstop : (((memberTokens after).map g).getLast?.getD (g t)).span.stop =
      place ((memberTokens after).getLast?.getD t).span.stop := by
    rw [List.getLast?_map]
    cases hl : (memberTokens after).getLast? with
    | none => rw [Option.map_none, Option.getD_none, Option.getD_none, hspan]
    | some u =>
      have hu := (hplace u (kind_of_mem_memberTokens (List.mem_of_getLast? hl))).1
      rw [Option.map_some, Option.getD_some, Option.getD_some, hu]
  simp only [SymbolUse.at, SymbolUse.placed, h.memberTokens, hpath, hstop, h.isDependsOnElement, List.isEmpty_map,
    h.text_of_kind ht (by decide), hline, hcolumn, hspan]

/-- Uses are found at the same tokens. -/
theorem usesFrom_map {place : Nat → Nat} (h : Resembles g) (hplace : PlacesNames g place) (symbols : List String)
    (before toks : List Token) :
    usesFrom symbols (before.map g) (toks.map g) = (usesFrom symbols before toks).map (SymbolUse.placed place) := by
  induction toks generalizing before with
  | nil => rfl
  | cons t after ih =>
    have hothers := ih (t :: before)
    rw [List.map_cons] at hothers
    simp only [List.map_cons, usesFrom, h.kind, h.isValuePosition, hothers]
    by_cases ht : t.kind = .identifier
    · rw [h.text_of_kind ht (by decide), at_map h hplace before after ht]
      split <;> rfl
    · simp only [ht, decide_false, Bool.false_and, Bool.false_eq_true, if_false]

/-- The text with carriage returns has the same uses. -/
theorem findUses_returned (source : String) (symbols : List String) (toks : List Token) :
    findUses symbols (toks.map (Token.returned source)) =
      (findUses symbols toks).map (SymbolUse.placed (returnedPlace source)) := by
  refine usesFrom_map (resembles_returned source) (fun t ht => ?_) symbols [] toks
  have hn : t.kind ≠ .newline := by simp [ht]
  rw [Token.returned, if_neg hn]
  exact ⟨rfl, rfl, rfl⟩

end Uses

end BicepMigration.Template
