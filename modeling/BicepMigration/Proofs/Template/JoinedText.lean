import BicepMigration.Proofs.Template.JoinedStatements
import BicepMigration.Template.Rendering

/-!
# Uses and edits before another template

What comes on the lines after a template does not matter for the uses that are found in it, nor for its edits. The
search for a `dependsOn` key goes back over closed brackets only, and all brackets of a template are closed at its end.
Main statements: without names of symbols in what follows, the same uses are found, and edits of the first text leave
what follows as it is.
-/

namespace BicepMigration.Template

open Text

section Uses

variable {toks before rest : List Token} {symbols : List String}

/-- A token opens a bracket, closes one, or does neither. -/
theorem Nest.length_after {n m : Nest} {kind : TokenKind} (h : n.after kind = some m) :
    m.opened.length + (if kind.closes then 1 else 0) = n.opened.length + (if kind.opens then 1 else 0) := by
  obtain ⟨zone, opened⟩ := n
  have hclose {bracket : Bracket} {z : Zone} (hm : Nest.close ⟨zone, opened⟩ bracket z = some m) :
      m.opened.length + 1 = opened.length := by
    obtain ⟨outer, ho, rfl⟩ := opened_of_close hm
    simp only at ho
    simp [ho]
  cases zone <;> cases kind <;> simp only [Nest.after, Option.some.injEq, reduceCtorEq] at h <;> first
    | (subst h; rfl)
    | exact hclose h

/-- On the way back over tokens the brackets that they close are opened again. -/
theorem enclosingBracket_run {n m : Nest} (h : n.run (kinds toks) = some m) :
    enclosingBracket m.opened.length (toks.reverse ++ before) = enclosingBracket n.opened.length before := by
  induction toks generalizing n before with
  | nil =>
    obtain rfl : n = m := by simpa using h
    rfl
  | cons t toks ih =>
    rw [kinds_cons, Nest.run_cons] at h
    obtain ⟨o, ho, hr⟩ := Option.bind_eq_some_iff.1 h
    have hlength := Nest.length_after ho
    rw [List.reverse_cons, List.append_assoc, List.singleton_append, ih hr, enclosingBracket]
    cases hopens : t.kind.opens with
    | true =>
      have hcloses := TokenKind.not_closes_of_opens hopens
      rw [hopens, hcloses] at hlength
      have hpos : o.opened.length ≠ 0 := by simp at hlength; omega
      have hpred : o.opened.length - 1 = n.opened.length := by simp at hlength; omega
      simp [hcloses, hpos, hpred]
    | false =>
      cases hcloses : t.kind.closes <;> rw [hopens, hcloses] at hlength <;> simp at hlength <;> simp [hlength]

/-- Before a place where all brackets are closed there is none that stands open. -/
theorem enclosingBracket_of_balanced (h : Balanced (kinds before)) : enclosingBracket 0 before.reverse = [] := by
  have := (@enclosingBracket_run _ [] _ _) h
  rwa [List.append_nil] at this

/-- Members end at the end of a line. -/
theorem memberTokens_append (he : atLineEnd rest = true) (ts : List Token) :
    memberTokens (ts ++ rest) = memberTokens ts := by
  fun_induction memberTokens ts with
  | case1 point name more hk ih =>
    rw [List.cons_append, List.cons_append, memberTokens, if_pos hk, ih]
  | case2 point name more hk =>
    rw [List.cons_append, List.cons_append, memberTokens, if_neg hk]
  | case3 ts hne =>
    cases rest with
    | nil => rw [List.append_nil, memberTokens.eq_2 _ hne]
    | cons line more =>
      have hline := head_of_atLineEnd he
      cases ts with
      | nil => cases more <;> simp [memberTokens, hline]
      | cons point ts =>
        cases ts with
        | nil => simp [memberTokens, hline]
        | cons name ts => exact absurd rfl (hne point name ts)

/-- A use at the end of a line is found there, whatever comes after. -/
theorem useAt?_append {t : Token} {after : List Token} (hb : Balanced (kinds (before ++ t :: after)))
    (he : atLineEnd rest = true) :
    useAt? symbols before.reverse t (after ++ rest) = useAt? symbols before.reverse t after := by
  have hcolon : (after ++ rest).head?.any (·.kind = .colon) = after.head?.any (·.kind = .colon) := by
    cases after with
    | nil =>
      cases rest with
      | nil => rfl
      | cons line more => simp [head_of_atLineEnd he]
    | cons u after => rfl
  have hvalue : isValuePosition before.reverse (after ++ rest) = isValuePosition before.reverse after := by
    unfold isValuePosition isKeyPosition
    rw [hcolon]
  unfold useAt?
  rw [hvalue]
  split
  · next hk =>
    have hdepends : isDependsOnElement before.reverse (after ++ rest) = isDependsOnElement before.reverse after := by
      cases after with
      | cons u after => rfl
      | nil =>
        -- the last name of a template stands outside all brackets
        simp only [Bool.and_eq_true, decide_eq_true_eq] at hk
        have hbefore : Balanced (kinds before) := by
          rw [kinds_append, Balanced, Nest.run_append] at hb
          obtain ⟨n, hn, hlast⟩ := Option.bind_eq_some_iff.1 hb
          obtain ⟨zone, opened⟩ := n
          rw [kinds_cons, hk.1.1, Nest.run_cons] at hlast
          cases zone <;> simp [Nest.after] at hlast
          rwa [hlast] at hn
        simp [isDependsOnElement, enclosingBracket_of_balanced hbefore]
    unfold SymbolUse.at
    rw [memberTokens_append he, hdepends]
  · rfl

/-- Tokens that are no names of symbols hold no use. -/
theorem usesFrom_of_not_mem (h : ∀ t ∈ toks, t.kind = .identifier → t.text ∉ symbols) :
    usesFrom symbols before toks = [] := by
  induction toks generalizing before with
  | nil => rfl
  | cons t toks ih =>
    rw [usesFrom_cons, ih fun u hu => h u (List.mem_cons_of_mem _ hu), useAt?]
    split
    · next hk =>
      simp only [Bool.and_eq_true, decide_eq_true_eq, List.contains_iff_mem] at hk
      exact absurd hk.1.2 (h t List.mem_cons_self hk.1.1)
    · rfl

/-- Tokens behind the end of a line that name no symbol add no use. -/
theorem usesFrom_append (hb : Balanced (kinds (before ++ toks))) (he : atLineEnd rest = true)
    (hrest : ∀ t ∈ rest, t.kind = .identifier → t.text ∉ symbols) :
    usesFrom symbols before.reverse (toks ++ rest) = usesFrom symbols before.reverse toks := by
  induction toks generalizing before with
  | nil => exact usesFrom_of_not_mem hrest
  | cons t toks ih =>
    have hnext := (@ih (before ++ [t])) (by simpa using hb)
    rw [List.reverse_append, List.reverse_singleton, List.singleton_append] at hnext
    rw [List.cons_append, usesFrom_cons, usesFrom_cons, useAt?_append hb he, hnext]

/-- The same uses are found, if no symbol is named after the template. -/
theorem findUses_append (hb : Balanced (kinds toks)) (he : atLineEnd rest = true)
    (hrest : ∀ t ∈ rest, t.kind = .identifier → t.text ∉ symbols) :
    findUses symbols (toks ++ rest) = findUses symbols toks :=
  (@usesFrom_append _ [] _ _) hb he hrest

end Uses

section Splicing

variable {source : String} {edits : List Edit}

/-- Edits of a text make the same of its spans in every longer text. -/
theorem EditedText.textFrom_append {stop cursor : Nat} (h : IsSpan source ⟨cursor, stop⟩)
    (he : ∀ e ∈ edits, IsSpan source e.span) (more : String) :
    textFrom (source ++ more) stop cursor edits = textFrom source stop cursor edits := by
  induction edits generalizing cursor with
  | nil => exact h.slice_append more
  | cons e rest ih =>
    have hrest : ∀ e' ∈ rest, IsSpan source e'.span := fun e' he' => he e' (List.mem_cons_of_mem _ he')
    have hspan := he e List.mem_cons_self
    rw [textFrom, textFrom]
    split
    · exact ih h hrest
    · next hk =>
      simp only [Bool.or_eq_true, decide_eq_true_eq, not_or, Nat.not_lt] at hk
      have hkept := isSpan_of_boundaries h.start_boundary hspan.start_boundary hk.1
      have hafter := isSpan_of_boundaries hspan.stop_boundary h.stop_boundary hk.2
      rw [hkept.slice_append more, ih hafter hrest]

/-- Edits of a text leave what comes after it as it is. -/
theorem EditedText.textFrom_append_whole {cursor : Nat} (h : IsSpan source ⟨cursor, source.utf8ByteSize⟩)
    (he : ∀ e ∈ edits, IsSpan source e.span) (more : String) :
    textFrom (source ++ more) (source ++ more).utf8ByteSize cursor edits =
      textFrom source source.utf8ByteSize cursor edits ++ more := by
  induction edits generalizing cursor with
  | nil => exact slice_append_of_boundary h.start_boundary more
  | cons e rest ih =>
    have hrest : ∀ e' ∈ rest, IsSpan source e'.span := fun e' he' => he e' (List.mem_cons_of_mem _ he')
    have hspan := he e List.mem_cons_self
    have hstop : ¬ (source ++ more).utf8ByteSize < e.span.stop := by
      have := (hspan.append more).stop_le
      omega
    have hstop' : ¬ source.utf8ByteSize < e.span.stop := by
      have := hspan.stop_le
      omega
    rw [textFrom, textFrom]
    simp only [hstop, hstop', decide_false, Bool.or_false, decide_eq_true_eq]
    split
    · exact ih h hrest
    · next hk =>
      have hkept := isSpan_of_boundaries h.start_boundary hspan.start_boundary (Nat.not_lt.1 hk)
      have hafter := isSpan_of_boundaries hspan.stop_boundary h.stop_boundary hspan.stop_le
      rw [hkept.slice_append more, ih hafter hrest, String.append_assoc, String.append_assoc, String.append_assoc]

/-- Text behind all edits is copied. -/
theorem EditedText.apply_append (he : ∀ e ∈ edits, IsSpan source e.span) (more : String) :
    (ofEdits (source ++ more) edits).apply = (ofEdits source edits).apply ++ more :=
  textFrom_append_whole (isSpan_whole source) (fun e he' => he e (mem_ofEdits.1 he')) more

/-- A fragment of a text has the same text with edits in every longer text. -/
theorem EditedText.fragment_append (he : ∀ e ∈ edits, IsSpan source e.span) {f : Fragment}
    (hf : ∀ span, f.span = some span → IsSpan source span) (more : String) :
    (ofEdits (source ++ more) edits).fragment f = (ofEdits source edits).fragment f := by
  unfold fragment
  split
  · next span hspan => exact textFrom_append (hf span hspan) (fun e he' => he e (mem_ofEdits.1 he')) more
  · rfl

end Splicing

section Rendering

variable {edited edited' : EditedText}

mutual

/-- A value is written with the text of its fragments. -/
theorem renderValue_congr (depth : Nat) : (v : Value) → (∀ f ∈ v.fragments, edited'.fragment f = edited.fragment f) →
    renderValue edited' depth v = renderValue edited depth v
  | .string f, h | .interpolated f, h | .expression f, h => by
    simp only [renderValue]
    exact h f List.mem_cons_self
  | .number _, _ | .bool _, _ | .null, _ => by simp only [renderValue]
  | .object [], _ | .array [], _ => by simp only [renderValue]
  | .object (p :: rest), h => by
    rw [renderValue, renderValue, renderEntries_congr (depth + 1) (p :: rest) h]
  | .array (item :: rest), h => by
    rw [renderValue, renderValue, renderItems_congr (depth + 1) (item :: rest) h]

/-- Properties are written alike if their fragments are. -/
theorem renderEntries_congr (depth : Nat) : (ps : List (Property Value)) →
    (∀ f ∈ Value.fragments.entriesFragments ps, edited'.fragment f = edited.fragment f) →
    renderEntries edited' depth ps = renderEntries edited depth ps
  | [], _ => by simp only [renderEntries]
  | ⟨key, quoted, value, line⟩ :: rest, h => by
    rw [renderEntries, renderEntries, renderValue_congr depth value fun f hf => h f (List.mem_append_left _ hf),
      renderEntries_congr depth rest fun f hf => h f (List.mem_append_right _ hf)]

/-- Elements are written alike if their fragments are. -/
theorem renderItems_congr (depth : Nat) : (vs : List Value) →
    (∀ f ∈ Value.fragments.itemsFragments vs, edited'.fragment f = edited.fragment f) →
    renderItems edited' depth vs = renderItems edited depth vs
  | [], _ => by simp only [renderItems]
  | item :: rest, h => by
    rw [renderItems, renderItems, renderValue_congr depth item fun f hf => h f (List.mem_append_left _ hf),
      renderItems_congr depth rest fun f hf => h f (List.mem_append_right _ hf)]

end

end Rendering

end BicepMigration.Template
