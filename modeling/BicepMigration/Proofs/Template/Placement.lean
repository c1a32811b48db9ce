import BicepMigration.Proofs.Template.Pieces
import BicepMigration.Proofs.Template.RenderedText
import BicepMigration.Proofs.Template.Unplaced

/-!
# Lexemes in a text

Lexemes that stand in a text give their fragments the text that they are written with. So the same lexemes in
another text, perhaps after another gap, are tokens in other places that carry their text along. A text that can be
read is the text of one list of lexemes only, apart from the first gap.
-/

namespace BicepMigration.Template

open Text

/-- Lexemes stand in a text from a place on. -/
def Placed (source : String) (here : Cursor) (ls : List Lexeme) : Prop :=
  ∃ before after, source.toList = before ++ (written ls ++ after) ∧ byteLength before = here.offset

/-- Characters are parted in one way only where a part has a given length. -/
theorem append_inj_of_byteLength {a b c d : List Char} (h : a ++ b = c ++ d) (hl : byteLength a = byteLength c) :
    a = c ∧ b = d := by
  obtain ⟨e, rfl, rfl⟩ := exists_append_of_byteLength_le h (Nat.le_of_eq hl)
  obtain rfl : e = [] := by
    rw [← byteLength_eq_zero]
    simp only [byteLength_append] at hl
    omega
  simp

variable {source source' : String} {here here' : Cursor}

/-- The first of two runs stands at their place. -/
theorem Placed.left {a b : List Lexeme} (h : Placed source here (a ++ b)) : Placed source here a := by
  obtain ⟨before, after, hs, hb⟩ := h
  exact ⟨before, written b ++ after, by rw [hs]; simp, hb⟩

/-- The second of two runs stands behind the first one. -/
theorem Placed.right {a b : List Lexeme} (h : Placed source here (a ++ b)) :
    Placed source (here.advance (written a)) b := by
  obtain ⟨before, after, hs, hb⟩ := h
  exact ⟨before ++ written a, after, by rw [hs]; simp, by rw [byteLength_append, Cursor.advance_offset, hb]⟩

/-- Lexemes behind the first one stand behind it. -/
theorem Placed.tail {l : Lexeme} {ls : List Lexeme} (h : Placed source here (l :: ls)) :
    Placed source (here.advance (l.gap ++ l.text)) ls := by
  have := Placed.right (a := [l]) h
  simpa using this

/-- The token of a lexeme that starts at a place. -/
abbrev Lexeme.token (l : Lexeme) (here : Cursor) : Token := Token.ofChars l.kind (here.advance l.gap) l.text

theorem tokensAt_cons (here : Cursor) (l : Lexeme) (ls : List Lexeme) :
    tokensAt here (l :: ls) = l.token here :: tokensAt (here.advance (l.gap ++ l.text)) ls := rfl

/-- Lexemes without a gap before them start after any other gap. -/
theorem Placed.of_regap {l : Lexeme} {ls : List Lexeme} (hg : l.gap = []) {gap : List Char}
    (h : Placed source here (regap gap (l :: ls))) :
    Placed source (here.advance gap) (l :: ls) ∧
      tokensAt here (regap gap (l :: ls)) = tokensAt (here.advance gap) (l :: ls) := by
  obtain ⟨before, after, hs, hb⟩ := h
  refine ⟨⟨before ++ gap, after, ?_, ?_⟩, ?_⟩
  · rw [hs, regap, written_cons, written_cons, hg]
    simp
  · rw [byteLength_append, hb, Cursor.advance_offset]
  · rw [regap, tokensAt_cons, tokensAt_cons, Lexeme.token, Lexeme.token, hg]
    simp [Cursor.advance]

/-- A fragment has the text of its lexemes. -/
theorem raw_ofTokens {first : Lexeme} {others : List Lexeme} (h : Placed source here (first :: others)) :
    (Fragment.ofTokens source (first.token here) (tokensAt (here.advance (first.gap ++ first.text)) others)).raw.toList =
      bare (first :: others) := by
  obtain ⟨before, after, hs, hb⟩ := h
  refine (@toList_slice_of_append _ (before ++ first.gap) _ after) ?_ ?_ ?_
  · rw [hs]
    simp
  · simp [Cursor.advance_offset, hb]
  · rw [stop_getLast_tokensAt]
    simp [runSpan, Cursor.advance_offset, Nat.add_assoc]

/-- Tokens meet where nothing stands between them. -/
theorem meets_iff (l m : Lexeme) (here : Cursor) :
    (l.token here).span.stop = (m.token (here.advance (l.gap ++ l.text))).span.start ↔ m.gap = [] := by
  rw [← byteLength_eq_zero]
  simp only [Token.ofChars_span, Cursor.advance_offset, byteLength_append]
  omega

/-- Later tokens start later. -/
theorem pairwise_start_tokensAt {ls : List Lexeme} (h : ∀ l ∈ ls, l.text ≠ []) (here : Cursor) :
    (tokensAt here ls).Pairwise (fun a b => a.span.start < b.span.start) ∧
      ∀ t ∈ tokensAt here ls, here.offset ≤ t.span.start := by
  obtain ⟨hp, hle⟩ := apart_tokensAt h here
  refine ⟨hp.imp_of_mem fun {a b} ha _ hab => ?_, fun t ht => (hle t ht).1⟩
  exact Nat.lt_of_lt_of_le (hle a ha).2 hab

/-- Tokens start before their lexemes end. -/
theorem start_tokensAt_lt {ls : List Lexeme} (h : ∀ l ∈ ls, l.text ≠ []) (here : Cursor) :
    ∀ t ∈ tokensAt here ls, t.span.start < here.offset + byteLength (written ls) := by
  induction ls generalizing here with
  | nil => simp
  | cons l ls ih =>
    intro t ht
    rw [written_cons, ← List.append_assoc, byteLength_append, byteLength_append]
    rcases List.mem_cons.1 ht with rfl | ht
    · have hpos := byteLength_pos (h l List.mem_cons_self)
      simp only [Token.ofChars_span, Cursor.advance_offset]
      omega
    · have hlt := ih (fun m hm => h m (List.mem_cons_of_mem _ hm)) _ t ht
      rw [Cursor.advance_offset, byteLength_append] at hlt
      omega

/-- The tokens of lexemes start in their span. -/
theorem contains_start_tokensAt {first : Lexeme} {others : List Lexeme} (h : ∀ l ∈ first :: others, l.text ≠ [])
    (here : Cursor) :
    ∀ t ∈ tokensAt here (first :: others), (runSpan here.offset first others).contains t.span.start = true := by
  intro t ht
  have hlt := start_tokensAt_lt h here t ht
  have hfirst := (List.pairwise_cons.1 (pairwise_start_tokensAt h here).1).1
  have hle : here.offset + byteLength first.gap ≤ t.span.start := by
    rw [← Cursor.advance_offset]
    rcases List.mem_cons.1 ht with rfl | ht
    · exact Nat.le_refl _
    · exact Nat.le_of_lt (hfirst t ht)
  rw [Span.contains, Bool.and_eq_true]
  exact ⟨decide_eq_true hle, decide_eq_true hlt⟩

/-- Tokens of the same kinds and texts are those of a relocation. -/
theorem exists_relocates {ts ts' : List Token} (hn : ts.Nodup) (hk : kinds ts' = kinds ts)
    (ht : ts'.map (·.text) = ts.map (·.text)) : ∃ g, Relocates g ∧ ts.map g = ts' := by
  induction ts generalizing ts' with
  | nil =>
    cases ts' with
    | nil => exact ⟨id, ⟨fun _ => rfl, fun _ => rfl⟩, rfl⟩
    | cons t' ts' => cases hk
  | cons t ts ih =>
    cases ts' with
    | nil => cases hk
    | cons t' ts' =>
      obtain ⟨hkind, hkinds⟩ := List.cons.inj hk
      obtain ⟨htext, htexts⟩ := List.cons.inj ht
      obtain ⟨hnot, hnodup⟩ := List.nodup_cons.1 hn
      obtain ⟨g, hg, rfl⟩ := ih hnodup hkinds htexts
      refine ⟨fun u => if u = t then t' else g u, ⟨fun u => ?_, fun u => ?_⟩, ?_⟩
      · split
        · next hu => exact hu ▸ hkind
        · exact hg.kind u
      · split
        · next hu => exact hu ▸ htext
        · exact hg.text u
      · rw [List.map_cons, if_pos rfl]
        refine congrArg _ (List.map_congr_left fun u hu => if_neg ?_)
        rintro rfl
        exact hnot hu

/-- Lexemes in the middle of others, after a gap for the first of all. -/
theorem regap_append_cases (gap : List Char) (x z y : List Lexeme) (hz : z ≠ []) :
    ∃ x' z', regap gap (x ++ (z ++ y)) = x' ++ (z' ++ y) ∧ x'.length = x.length ∧
      (z' = z ∨ z' = regap gap z) := by
  cases x with
  | nil =>
    cases z with
    | nil => exact absurd rfl hz
    | cons l z => exact ⟨[], regap gap (l :: z), rfl, rfl, .inr rfl⟩
  | cons l x => exact ⟨regap gap (l :: x), z, rfl, rfl, .inl rfl⟩

/-- Tokens have the texts of their lexemes. -/
theorem map_text_tokensAt (here : Cursor) (ls : List Lexeme) :
    (tokensAt here ls).map (·.text) = ls.map fun l => String.ofList l.text := by
  induction ls generalizing here with
  | nil => rfl
  | cons l ls ih => exact congrArg (List.cons _) (ih _)

/-- A new gap keeps the texts. -/
theorem map_text_regap (gap : List Char) (ls : List Lexeme) :
    (regap gap ls).map (fun l => String.ofList l.text) = ls.map fun l => String.ofList l.text := by
  cases ls <;> rfl

/-- Tokens in the middle of some are those of lexemes in the middle, before and after the first gap is another. -/
theorem exists_middle {ls : List Lexeme} {gap : List Char} {g : Token → Token} (h : Placed source here ls)
    (h' : Placed source' here' (regap gap ls)) (hmap : (tokensAt here ls).map g = tokensAt here' (regap gap ls))
    {toks : List Token} (hne : toks ≠ []) (hi : toks <:+: tokensAt here ls) :
    ∃ z z' at' at'', toks = tokensAt at' z ∧ toks.map g = tokensAt at'' z' ∧ Placed source at' z ∧
      Placed source' at'' z' ∧ (z' = z ∨ z' = regap gap z) := by
  obtain ⟨a, b, hab⟩ := hi
  rw [List.append_assoc] at hab
  obtain ⟨x, zy, rfl, rfl, hzy⟩ := tokensAt_eq_append hab.symm
  obtain ⟨z, y, rfl, rfl, rfl⟩ := tokensAt_eq_append hzy.symm
  have hz : z ≠ [] := by
    rintro rfl
    exact hne rfl
  obtain ⟨x', z', heq, hx, hz'⟩ := regap_append_cases gap x z y hz
  have hlen : z'.length = z.length := by
    rcases hz' with rfl | rfl
    · rfl
    · cases z <;> rfl
  rw [heq] at hmap h'
  rw [← hab, List.map_append, List.map_append, tokensAt_append, tokensAt_append] at hmap
  have hleft := List.append_inj hmap (by simp [hx])
  have hright := List.append_inj hleft.2 (by simp [hlen])
  exact ⟨z, z', _, _, rfl, hright.1, h.right.left, h'.right.left, hz'⟩

/-- The same lexemes in another text, after another gap, carry their text along. -/
theorem exists_carries {ls : List Lexeme} (gap : List Char) (hne : ∀ l ∈ ls, l.text ≠ [])
    (h : Placed source here ls) (h' : Placed source' here' (regap gap ls)) :
    ∃ g, Carries source source' g (tokensAt here ls) ∧ (tokensAt here ls).map g = tokensAt here' (regap gap ls) := by
  have hnodup : (tokensAt here ls).Nodup :=
    (pairwise_start_tokensAt hne here).1.imp fun {a b} hlt heq => absurd hlt (by rw [heq]; exact Nat.lt_irrefl _)
  obtain ⟨g, hg, hmap⟩ : ∃ g, Relocates g ∧ (tokensAt here ls).map g = tokensAt here' (regap gap ls) :=
    exists_relocates hnodup (by rw [kinds_tokensAt, kinds_tokensAt, map_kind_regap])
      (by rw [map_text_tokensAt, map_text_tokensAt, map_text_regap])
  refine ⟨g, ⟨hg, fun first others hi => ?_, fun a b hi => ?_⟩, hmap⟩
  · obtain ⟨z, z', at', at'', hz, hz', hp, hp', hcase⟩ := exists_middle h h' hmap (List.cons_ne_nil _ _) hi
    obtain ⟨l, rest, rfl, rfl, rfl⟩ := tokensAt_eq_cons hz.symm
    obtain ⟨l', rest', rfl, hl', hrest'⟩ := tokensAt_eq_cons hz'.symm
    have hbare : bare (l' :: rest') = bare (l :: rest) := by
      rcases hcase with heq | heq
      · rw [heq]
      · rw [heq, bare_regap]
    apply String.toList_injective
    rw [raw_ofTokens hp, ← hbare, ← raw_ofTokens hp', hl', hrest']
  · obtain ⟨z, z', at', at'', hz, hz', -, -, hcase⟩ := exists_middle h h' hmap (List.cons_ne_nil _ _) hi
    obtain ⟨l, rest, rfl, rfl, hrest⟩ := tokensAt_eq_cons hz.symm
    obtain ⟨m, last, rfl, rfl, -⟩ := tokensAt_eq_cons hrest.symm
    obtain ⟨l', rest', rfl, hl', hrest'⟩ := tokensAt_eq_cons hz'.symm
    obtain ⟨m', last', rfl, hm', -⟩ := tokensAt_eq_cons hrest'.symm
    have hgap : m'.gap = m.gap := by
      rcases hcase with heq | heq
      · rw [(List.cons.inj (List.cons.inj heq).2).1]
      · rw [(List.cons.inj (List.cons.inj heq).2).1]
    rw [hl', hm', meets_iff l' m', meets_iff l m, hgap]

/-- Tokens and text determine the lexemes. -/
theorem tokensAt_injective {a b : List Lexeme} (ht : tokensAt here a = tokensAt here b)
    (hw : written a = written b) : a = b := by
  induction a generalizing here b with
  | nil =>
    cases b with
    | nil => rfl
    | cons m b => cases ht
  | cons l a ih =>
    cases b with
    | nil => cases ht
    | cons m b =>
      obtain ⟨htoken, hrest⟩ := List.cons.inj ht
      have hkind : l.kind = m.kind := congrArg Token.kind htoken
      have htext : l.text = m.text := String.ofList_injective (congrArg Token.text htoken)
      have hstart : (l.token here).span.start = (m.token here).span.start := congrArg (·.span.start) htoken
      have hlen : byteLength l.gap = byteLength m.gap := by
        simpa [Cursor.advance_offset] using hstart
      rw [written_cons, written_cons] at hw
      obtain ⟨hgap, hwritten⟩ := append_inj_of_byteLength hw hlen
      have hlm : l = m := by
        obtain ⟨gap, kind, text⟩ := l
        obtain ⟨gap', kind', text'⟩ := m
        simp only at hkind htext hgap
        rw [hkind, htext, hgap]
      subst hlm
      rw [ih hrest (List.append_cancel_left hwritten)]

/-- A text that can be read is that of one list of lexemes, apart from the first gap. -/
theorem regap_eq_of_bare {a b : List Lexeme} (ha : Part a) (hb : Part b) (h : bare a = bare b) :
    regap [] a = regap [] b := by
  have hread {ls : List Lexeme} (hp : Part ls) (s : LexState) (hs : s = ⟨.code, .origin, [], bare ls ++ ['\n']⟩) :
      s.tokens = .ok (tokensAt .origin (regap [] ls ++ [newlineLexeme])) := by
    subst hs
    have hnewline : Legible [newlineLexeme] [] := legible_cons .nil rfl rfl trivial trivial
    refine tokens_of_legible (legible_append.2 ⟨hp.legible_regap 0 rfl [], hnewline⟩) .nil ?_ ?_
    · rw [List.map_append, map_kind_regap]
      exact hp.balanced.append balanced_newline
    · rw [written_append, written_regap [] hp.ne_nil]
      simp [newlineLexeme]
  have hwritten : written (regap [] a) = written (regap [] b) := by
    rw [written_regap [] ha.ne_nil, written_regap [] hb.ne_nil, h]
  have htokens := (hread ha _ rfl).symm.trans ((congrArg _ (by rw [h])).trans (hread hb _ rfl))
  have hall := tokensAt_injective (Except.ok.inj htokens) (by simp [hwritten])
  exact List.append_cancel_right hall

end BicepMigration.Template
