import BicepMigration.Proofs.Template.Lexeme
import BicepMigration.Proofs.Template.Splice

/-!
# Changes of lexemes

Lexemes with changes are kept one by one, or some of them in a row are exchanged for others; what stands before
the first of these stays. Changes give edits of the text, and the text with these edits is that of the new
lexemes. Further edits inside an exchanged part do not matter. New lexemes need not be legible here.
-/

namespace BicepMigration.Template

open Text

/-- A lexeme that is kept, or lexemes in a row that are exchanged for others. -/
inductive Change where
  /-- The lexeme stays. -/
  | keep (l : Lexeme)
  /-- The first lexemes, of which there is one at least, go, and the others come in their place. -/
  | swap (first : Lexeme) (others : List Lexeme) (new : Lexeme) (more : List Lexeme)

namespace Change

/-- The lexemes before the change. -/
def old : Change → List Lexeme
  | keep l => [l]
  | swap first others _ _ => first :: others

/-- The lexemes after the change. What stands before the first one stays. -/
def new : Change → List Lexeme
  | keep l => [l]
  | swap first _ new more => { new with gap := first.gap } :: more

/-- The edit that makes the change, if the lexemes start at an offset. -/
def edit? (offset : Nat) : Change → Option Edit
  | keep _ => none
  | swap first others new more =>
    some ⟨⟨offset + byteLength first.gap, offset + byteLength (written (first :: others))⟩,
      String.ofList (bare (new :: more))⟩

end Change

/-- The lexemes before changes. -/
def olds (cs : List Change) : List Lexeme := cs.flatMap Change.old

/-- The lexemes after changes. -/
def news (cs : List Change) : List Lexeme := cs.flatMap Change.new

/-- The edits that make changes, if the lexemes start at an offset. -/
def editsFrom (offset : Nat) : List Change → List Edit
  | [] => []
  | c :: cs => (c.edit? offset).toList ++ editsFrom (offset + byteLength (written c.old)) cs

@[simp] theorem olds_nil : olds [] = [] := rfl

@[simp] theorem olds_cons (c : Change) (cs : List Change) : olds (c :: cs) = c.old ++ olds cs := rfl

@[simp] theorem olds_append (a b : List Change) : olds (a ++ b) = olds a ++ olds b := List.flatMap_append

@[simp] theorem news_nil : news [] = [] := rfl

@[simp] theorem news_cons (c : Change) (cs : List Change) : news (c :: cs) = c.new ++ news cs := rfl

@[simp] theorem news_append (a b : List Change) : news (a ++ b) = news a ++ news b := List.flatMap_append

@[simp] theorem editsFrom_nil (offset : Nat) : editsFrom offset [] = [] := rfl

/-- The edit of a change comes before those of the others, which start behind its lexemes. -/
theorem editsFrom_cons (offset : Nat) (c : Change) (cs : List Change) :
    editsFrom offset (c :: cs) =
      (c.edit? offset).toList ++ editsFrom (offset + byteLength (written c.old)) cs := rfl

/-- The edits of two runs come one after another. -/
theorem editsFrom_append (offset : Nat) (a b : List Change) :
    editsFrom offset (a ++ b) = editsFrom offset a ++ editsFrom (offset + byteLength (written (olds a))) b := by
  induction a generalizing offset with
  | nil => simp
  | cons c cs ih =>
    rw [List.cons_append, editsFrom_cons, ih, editsFrom_cons, List.append_assoc]
    simp [Nat.add_assoc]

/-- Kept lexemes. -/
def kept (ls : List Lexeme) : List Change := ls.map .keep

@[simp] theorem olds_kept (ls : List Lexeme) : olds (kept ls) = ls := by
  induction ls with
  | nil => rfl
  | cons l ls ih =>
    change l :: olds (kept ls) = l :: ls
    rw [ih]

@[simp] theorem news_kept (ls : List Lexeme) : news (kept ls) = ls := by
  induction ls with
  | nil => rfl
  | cons l ls ih =>
    change l :: news (kept ls) = l :: ls
    rw [ih]

@[simp] theorem editsFrom_kept (offset : Nat) (ls : List Lexeme) : editsFrom offset (kept ls) = [] := by
  induction ls generalizing offset with
  | nil => rfl
  | cons l ls ih => exact ih _

/-- An edit is the one of a change, or stands properly inside the part that the change exchanges. -/
def Change.Covers (c : Change) (offset : Nat) (e : Edit) : Prop :=
  ∃ own, c.edit? offset = some own ∧
    (e = own ∨ (own.span.start ≤ e.span.start ∧ e.span.stop ≤ own.span.stop ∧ e.span ≠ own.span))

/-- An edit stands outside the lexemes of changes, or a change covers it. -/
def Fits (e : Edit) (offset : Nat) : List Change → Prop
  | [] => e.Clears offset
  | c :: cs =>
    e.span.stop ≤ offset ∨ c.Covers offset e ∨
      (offset + byteLength (written c.old) ≤ e.span.start ∧ Fits e (offset + byteLength (written c.old)) cs)

theorem Fits.of_stop_le {e : Edit} {offset : Nat} {cs : List Change} (h : e.span.stop ≤ offset) :
    Fits e offset cs := by
  cases cs with
  | nil => exact .inl h
  | cons c cs => exact .inl h

/-- An edit that a change covers comes after the gap of its first token. -/
theorem Change.Covers.gap_le {c : Change} {offset : Nat} {e : Edit} (h : c.Covers offset e) {l : Lexeme}
    {ls : List Lexeme} (hl : c.old = l :: ls) : offset + byteLength l.gap ≤ e.span.start := by
  obtain ⟨own, ho, h⟩ := h
  cases c with
  | keep l => cases ho
  | swap first others new more =>
    obtain rfl := Option.some.inj ho
    obtain rfl : first = l := (List.cons.inj hl).1
    rcases h with rfl | ⟨h, -⟩
    · exact Nat.le_refl _
    · exact h

/-- The places of a change. -/
theorem Change.Covers.bounds {c : Change} {offset : Nat} {e : Edit} (h : c.Covers offset e) :
    offset ≤ e.span.start ∧ e.span.stop ≤ offset + byteLength (written c.old) := by
  obtain ⟨own, ho, h⟩ := h
  cases c with
  | keep l => simp [edit?] at ho
  | swap first others new more =>
    simp only [edit?, Option.some.injEq] at ho
    subst ho
    rcases h with rfl | ⟨h₁, h₂, -⟩
    · simp only [old]
      omega
    · simp only [old] at h₁ h₂ ⊢
      omega

/-- An edit that fits into two runs fits into both. -/
theorem Fits.append {e : Edit} {offset : Nat} {a b : List Change}
    (h : Fits e offset (a ++ b)) : Fits e offset a ∧ Fits e (offset + byteLength (written (olds a))) b := by
  induction a generalizing offset with
  | nil =>
    refine ⟨?_, by simpa using h⟩
    cases b with
    | nil => exact h
    | cons c cs =>
      rcases h with h | h | ⟨h, -⟩
      · exact .inl h
      · exact .inr h.bounds.1
      · exact .inr (by omega)
  | cons c cs ih =>
    rw [olds_cons, written_append, byteLength_append, ← Nat.add_assoc]
    rcases h with h | h | ⟨h, h'⟩
    · exact ⟨.inl h, Fits.of_stop_le (by omega)⟩
    · exact ⟨.inr (.inl h), Fits.of_stop_le (by have := h.bounds; omega)⟩
    · obtain ⟨h₁, h₂⟩ := ih h'
      exact ⟨.inr (.inr ⟨h, h₁⟩), h₂⟩

/-- An edit behind the first run fits if it fits into the second one. -/
theorem Fits.append_left {e : Edit} {offset : Nat} {a b : List Change}
    (h : offset + byteLength (written (olds a)) ≤ e.span.start)
    (hb : Fits e (offset + byteLength (written (olds a))) b) : Fits e offset (a ++ b) := by
  induction a generalizing offset with
  | nil => simpa using hb
  | cons c cs ih =>
    rw [olds_cons, written_append, byteLength_append, ← Nat.add_assoc] at h hb
    exact .inr (.inr ⟨by omega, ih h hb⟩)

/-- An edit before the second run fits if it fits into the first one. -/
theorem Fits.append_right {e : Edit} {offset : Nat} {a b : List Change}
    (h : e.span.stop ≤ offset + byteLength (written (olds a))) (ha : Fits e offset a) : Fits e offset (a ++ b) := by
  induction a generalizing offset with
  | nil => exact .of_stop_le (by simpa using h)
  | cons c cs ih =>
    rw [olds_cons, written_append, byteLength_append, ← Nat.add_assoc] at h
    rcases ha with ha | ha | ⟨ha, ha'⟩
    · exact .inl ha
    · exact .inr (.inl ha)
    · exact .inr (.inr ⟨ha, ih h ha'⟩)

/-- An edit of changes fits them. -/
theorem fits_of_mem_editsFrom {e : Edit} {offset : Nat} {cs : List Change} (h : e ∈ editsFrom offset cs) :
    Fits e offset cs ∧ offset ≤ e.span.start ∧ e.span.stop ≤ offset + byteLength (written (olds cs)) := by
  induction cs generalizing offset with
  | nil => simp at h
  | cons c cs ih =>
    rw [editsFrom_cons, List.mem_append] at h
    rw [olds_cons, written_append, byteLength_append]
    rcases h with h | h
    · have hc : c.Covers offset e := ⟨e, by simpa using h, .inl rfl⟩
      have hb := hc.bounds
      exact ⟨.inr (.inl hc), hb.1, by omega⟩
    · obtain ⟨h₁, h₂, h₃⟩ := ih h
      exact ⟨.inr (.inr ⟨h₂, h₁⟩), by omega, by omega⟩

/-- An edit of changes starts with the first token or later. -/
theorem gap_le_start {e : Edit} {offset : Nat} {cs : List Change} {l : Lexeme} {ls : List Lexeme}
    (h : e ∈ editsFrom offset cs) (hl : olds cs = l :: ls) : offset + byteLength l.gap ≤ e.span.start := by
  cases cs with
  | nil => simp at h
  | cons c cs =>
    rw [editsFrom_cons, List.mem_append] at h
    cases c with
    | keep k =>
      obtain ⟨rfl, -⟩ : k = l ∧ olds cs = ls := by simpa [Change.old] using hl
      have hrest := h.resolve_left (by simp [Change.edit?])
      have hb := (fits_of_mem_editsFrom hrest).2.1
      simp only [Change.old, written_cons, byteLength_append] at hb
      omega
    | swap first others new more =>
      obtain ⟨rfl, -⟩ : first = l ∧ others ++ olds cs = ls := by simpa [Change.old] using hl
      rcases h with h | h
      · obtain rfl := by simpa [Change.edit?] using h
        exact Nat.le_refl _
      · have hb := (fits_of_mem_editsFrom h).2.1
        simp only [Change.old, written_cons, byteLength_append] at hb
        omega

/-- An edit of lexemes that are not empty is not empty. -/
theorem start_lt_stop_of_mem_editsFrom {e : Edit} {offset : Nat} {cs : List Change}
    (ht : ∀ l ∈ olds cs, l.text ≠ []) (h : e ∈ editsFrom offset cs) : e.span.start < e.span.stop := by
  induction cs generalizing offset with
  | nil => simp at h
  | cons c cs ih =>
    rw [editsFrom_cons, List.mem_append] at h
    rcases h with h | h
    · cases c with
      | keep l => simp [Change.edit?] at h
      | swap first others new more =>
        obtain rfl := by simpa [Change.edit?] using h
        have hpos := byteLength_pos (ht first (by simp [Change.old]))
        simp
        omega
    · exact ih (fun l hl => ht l (List.mem_append_right _ hl)) h

/-- An edit of changes ends between characters. -/
theorem boundary_of_mem_editsFrom {e : Edit} {offset : Nat} {cs : List Change} {text before after : List Char}
    (hs : text = before ++ (written (olds cs) ++ after)) (hb : byteLength before = offset)
    (h : e ∈ editsFrom offset cs) : IsBoundary text e.span.stop := by
  induction cs generalizing offset before with
  | nil => simp at h
  | cons c cs ih =>
    rw [olds_cons, written_append, List.append_assoc] at hs
    rw [editsFrom_cons, List.mem_append] at h
    rcases h with h | h
    · cases c with
      | keep l => simp [Change.edit?] at h
      | swap first others new more =>
        obtain rfl := by simpa [Change.edit?] using h
        refine ⟨before ++ written (first :: others), written (olds cs) ++ after, ?_, ?_⟩
        · rw [hs, List.append_assoc]
          rfl
        · rw [byteLength_append, hb]
          simp
    · refine @ih _ (before ++ written c.old) ?_ ?_ h
      · rw [hs, List.append_assoc]
      · rw [byteLength_append, hb]

/-- An edit of changes replaces whole characters, and at least one. -/
theorem isSound_of_mem_editsFrom {e : Edit} {offset : Nat} {cs : List Change} {text before after : List Char}
    (hs : text = before ++ (written (olds cs) ++ after)) (hb : byteLength before = offset)
    (ht : ∀ l ∈ olds cs, l.text ≠ []) (h : e ∈ editsFrom offset cs) : e.IsSound text :=
  ⟨start_lt_stop_of_mem_editsFrom ht h, boundary_of_mem_editsFrom hs hb h⟩

/-- The edits of a text that change some of its lexemes: they are whole, each fits the changes, and the edits of
the changes are among them. -/
structure Makes (source : String) (edits : List Edit) (offset : Nat) (cs : List Change) : Prop where
  inOrder : InOrder edits
  sound : ∀ e ∈ edits, e.IsSound source.toList
  fits : ∀ e ∈ edits, Fits e offset cs
  subset : ∀ e ∈ editsFrom offset cs, e ∈ edits

namespace Makes

variable {source : String} {edits : List Edit} {offset : Nat}

/-- Two runs are made one after another. -/
theorem append {a b : List Change} (h : Makes source edits offset (a ++ b)) :
    Makes source edits offset a ∧ Makes source edits (offset + byteLength (written (olds a))) b := by
  obtain ⟨ho, hs, hf, hm⟩ := h
  refine ⟨⟨ho, hs, fun e he => (hf e he).append.1, fun e he => hm e ?_⟩,
    ⟨ho, hs, fun e he => (hf e he).append.2, fun e he => hm e ?_⟩⟩
  · rw [editsFrom_append]
    exact List.mem_append_left _ he
  · rw [editsFrom_append]
    exact List.mem_append_right _ he

/-- Nothing happens before the first token of a change. -/
theorem not_within_gap {c : Change} (h : Makes source edits offset [c]) {l : Lexeme} {ls : List Lexeme}
    (hl : c.old = l :: ls) : ∀ e ∈ edits, ¬ e.Within offset (offset + byteLength l.gap) := by
  intro e he
  have hlt := (h.sound e he).start_lt_stop
  simp only [Edit.Within]
  rcases h.fits e he with h | h | ⟨h, -⟩
  · omega
  · have hle := h.gap_le hl
    omega
  · rw [hl, written_cons, byteLength_append] at h
    omega

/-- No edit goes over the place where the first token of a change starts. -/
theorem clears_gap {c : Change} {cs : List Change} (h : Makes source edits offset (c :: cs)) {l : Lexeme}
    {ls : List Lexeme} (hl : c.old = l :: ls) : ∀ e ∈ edits, e.Clears (offset + byteLength l.gap) := by
  intro e he
  rcases h.fits e he with h | h | ⟨h, -⟩
  · exact .inl (by omega)
  · exact .inr (h.gap_le hl)
  · rw [hl, written_cons, byteLength_append] at h
    exact .inr (by omega)

/-- A token that is kept keeps its text. -/
theorem toList_textFrom_keep {l : Lexeme} (h : Makes source edits offset [.keep l]) {before after : List Char}
    (hs : source.toList = before ++ (written [l] ++ after)) (hb : byteLength before = offset) :
    (EditedText.textFrom source (offset + byteLength (written [l])) offset edits).toList = written [l] := by
  have hn : ∀ e ∈ edits, ¬ e.Within offset (offset + byteLength (written [l])) := by
    intro e he
    have hlt := (h.sound e he).start_lt_stop
    simp only [Edit.Within]
    rcases h.fits e he with h | ⟨own, ho, -⟩ | ⟨h, -⟩
    · omega
    · simp [Change.edit?] at ho
    · simp only [Change.old] at h
      omega
  rw [EditedText.textFrom_of_not_within hn]
  exact toList_slice_of_append hs hb.symm rfl

/-- The edit of tokens that are exchanged. -/
theorem mem_of_swap {first new : Lexeme} {others more : List Lexeme}
    (h : Makes source edits offset [.swap first others new more]) :
    ⟨runSpan offset first others, String.ofList (bare (new :: more))⟩ ∈ edits :=
  h.subset _ (by simp [editsFrom_cons, Change.edit?, runSpan])

/-- Tokens that are exchanged have one edit. -/
theorem eq_of_span_swap {first new : Lexeme} {others more : List Lexeme}
    (h : Makes source edits offset [.swap first others new more]) {e : Edit} (he : e ∈ edits)
    (hspan : e.span = runSpan offset first others) :
    e = ⟨runSpan offset first others, String.ofList (bare (new :: more))⟩ := by
  have hlt := (h.sound _ h.mem_of_swap).start_lt_stop
  rcases h.fits e he with h | ⟨own, ho, h⟩ | ⟨h, -⟩
  · rw [hspan] at h
    simp only [runSpan] at h hlt
    omega
  · simp only [Change.edit?, Option.some.injEq] at ho
    subst ho
    exact h.resolve_right fun h => h.2.2 hspan
  · rw [hspan] at h
    simp only [Change.old, runSpan] at h hlt
    omega

/-- The text of a change. -/
theorem toList_textFrom_change {c : Change} (h : Makes source edits offset [c]) {before after : List Char}
    (hs : source.toList = before ++ (written c.old ++ after)) (hb : byteLength before = offset) :
    (EditedText.textFrom source (offset + byteLength (written c.old)) offset edits).toList = written c.new := by
  cases c with
  | keep l => exact h.toList_textFrom_keep hs hb
  | swap first others new more =>
    simp only [Change.old, Change.new] at hs ⊢
    have hlt := (h.sound _ h.mem_of_swap).start_lt_stop
    have hmiddle : IsBoundary source.toList (offset + byteLength first.gap) := by
      refine ⟨before ++ first.gap, bare (first :: others) ++ after, ?_, by rw [byteLength_append, hb]⟩
      rw [hs]
      simp
    have hleft : (EditedText.textFrom source (offset + byteLength first.gap) offset edits).toList = first.gap := by
      rw [EditedText.textFrom_of_not_within (h.not_within_gap rfl)]
      refine (@toList_slice_of_append _ before _ (bare (first :: others) ++ after)) ?_ hb.symm rfl
      rw [hs]
      simp
    have hright := (@EditedText.textFrom_of_mem source) h.inOrder (fun e he => (h.sound e he).start_lt_stop)
      h.mem_of_swap fun e he hspan => h.eq_of_span_swap he hspan
    simp only [runSpan] at hright hlt
    rw [EditedText.toList_textFrom_append h.inOrder h.sound (h.clears_gap rfl) ⟨before, _, hs, hb⟩ hmiddle
      (Nat.le_add_right _ _) (Nat.le_of_lt hlt), hleft, hright]
    simp

/-- The text of lexemes with changes is that of the new lexemes. -/
theorem toList_textFrom {cs : List Change} (h : Makes source edits offset cs) {before after : List Char}
    (hs : source.toList = before ++ (written (olds cs) ++ after)) (hb : byteLength before = offset) :
    (EditedText.textFrom source (offset + byteLength (written (olds cs))) offset edits).toList =
      written (news cs) := by
  induction cs generalizing offset before with
  | nil =>
    have hn : ∀ e ∈ edits, ¬ e.Within offset offset := by
      intro e he
      have hlt := (h.sound e he).start_lt_stop
      simp only [Edit.Within]
      omega
    simp only [olds_nil, written_nil, byteLength_nil, Nat.add_zero, news_nil]
    rw [EditedText.textFrom_of_not_within hn]
    simp [slice, takeBytes]
  | cons c cs ih =>
    obtain ⟨hc, hcs⟩ := Makes.append (a := [c]) (b := cs) h
    have hoc : olds [c] = c.old := List.append_nil _
    rw [hoc] at hcs
    rw [olds_cons, written_append, List.append_assoc] at hs
    rw [olds_cons, written_append, byteLength_append, ← Nat.add_assoc]
    have hclear : ∀ e ∈ edits, e.Clears (offset + byteLength (written c.old)) := by
      intro e he
      rcases h.fits e he with h | h | ⟨h, -⟩
      · exact .inl (by omega)
      · exact .inl h.bounds.2
      · exact .inr h
    have hmiddle : IsBoundary source.toList (offset + byteLength (written c.old)) :=
      ⟨before ++ written c.old, written (olds cs) ++ after, by rw [hs]; simp, by rw [byteLength_append, hb]⟩
    rw [EditedText.toList_textFrom_append h.inOrder h.sound hclear ⟨before, _, hs, hb⟩ hmiddle
      (Nat.le_add_right _ _) (Nat.le_add_right _ _)]
    rw [hc.toList_textFrom_change hs hb]
    rw [@ih _ hcs (before ++ written c.old) (by rw [hs]; simp) (by rw [byteLength_append, hb])]
    rw [news_cons, written_append]

/-- The first lexeme before changes keeps what stands before it. -/
theorem head_new {c : Change} {l : Lexeme} {ls : List Lexeme} (hl : c.old = l :: ls) :
    ∃ m ms, c.new = m :: ms ∧ m.gap = l.gap := by
  cases c with
  | keep k =>
    obtain ⟨rfl, -⟩ : k = l ∧ [] = ls := by simpa [Change.old] using hl
    exact ⟨k, [], rfl, rfl⟩
  | swap first others new more =>
    obtain ⟨rfl, -⟩ : first = l ∧ others = ls := by simpa [Change.old] using hl
    exact ⟨_, more, rfl, rfl⟩

/-- The text of lexemes with changes, from the first token on. -/
theorem toList_textFrom_bare {c : Change} {cs : List Change} (h : Makes source edits offset (c :: cs))
    {l : Lexeme} {ls : List Lexeme} (hl : c.old = l :: ls) {before after : List Char}
    (hs : source.toList = before ++ (written (olds (c :: cs)) ++ after)) (hb : byteLength before = offset) :
    (EditedText.textFrom source (offset + byteLength (written (olds (c :: cs))))
      (offset + byteLength l.gap) edits).toList = bare (news (c :: cs)) := by
  have holds : olds (c :: cs) = l :: (ls ++ olds cs) := by rw [olds_cons, hl, List.cons_append]
  have hw : written (olds (c :: cs)) = l.gap ++ bare (olds (c :: cs)) := by rw [holds, written_cons, bare_cons]
  have hgap : ∀ e ∈ edits, ¬ e.Within offset (offset + byteLength l.gap) :=
    (Makes.append (a := [c]) (b := cs) h).1.not_within_gap hl
  have hmiddle : IsBoundary source.toList (offset + byteLength l.gap) :=
    ⟨before ++ l.gap, bare (olds (c :: cs)) ++ after, by rw [hs, hw]; simp, by rw [byteLength_append, hb]⟩
  have hle : offset + byteLength l.gap ≤ offset + byteLength (written (olds (c :: cs))) := by
    rw [hw, byteLength_append]
    omega
  have hleft : (EditedText.textFrom source (offset + byteLength l.gap) offset edits).toList = l.gap := by
    rw [EditedText.textFrom_of_not_within hgap]
    refine (@toList_slice_of_append _ before _ (bare (olds (c :: cs)) ++ after)) ?_ hb.symm rfl
    rw [hs, hw]
    simp
  have htext := h.toList_textFrom hs hb
  rw [EditedText.toList_textFrom_append h.inOrder h.sound (h.clears_gap hl) ⟨before, _, hs, hb⟩ hmiddle
    (Nat.le_add_right _ _) hle, hleft] at htext
  obtain ⟨m, ms, hm, hmgap⟩ := head_new hl
  have hnews : written (news (c :: cs)) = l.gap ++ bare (news (c :: cs)) := by
    rw [news_cons, hm, List.cons_append, written_cons, bare_cons, hmgap]
  rw [hnews] at htext
  exact List.append_cancel_left htext

end Makes

/-- A text in which some spans are replaced and all else is copied, in order: the text that starts at an offset,
the edits made, and the text they make. -/
inductive Replaced : Nat → List Char → List Edit → List Char → Prop where
  | copy (here : Nat) (text : List Char) : Replaced here text [] text
  | edit {here : Nat} {kept old rest out : List Char} {e : Edit} {edits : List Edit} :
      e.span.start = here + byteLength kept → e.span.stop = e.span.start + byteLength old →
      Replaced e.span.stop rest edits out →
      Replaced here (kept ++ (old ++ rest)) (e :: edits) (kept ++ (e.replacement.toList ++ out))

/-- Text before all edits is copied. -/
theorem Replaced.keep {here : Nat} {kept text out : List Char} {edits : List Edit}
    (h : Replaced (here + byteLength kept) text edits out) : Replaced here (kept ++ text) edits (kept ++ out) := by
  cases h with
  | copy => exact .copy _ _
  | @edit _ kept' old rest out e edits hstart hstop hrest =>
    rw [← List.append_assoc kept kept', ← List.append_assoc kept kept']
    refine .edit ?_ hstop hrest
    rw [hstart, byteLength_append]
    omega

/-- Changes replace the spans of their edits. -/
theorem replaced_of_changes (offset : Nat) (cs : List Change) (tail : List Char) :
    Replaced offset (written (olds cs) ++ tail) (editsFrom offset cs) (written (news cs) ++ tail) := by
  induction cs generalizing offset with
  | nil => exact .copy _ _
  | cons c cs ih =>
    have hrest := ih (offset + byteLength (written c.old))
    rw [olds_cons, news_cons, written_append, written_append, List.append_assoc, List.append_assoc,
      editsFrom_cons]
    cases c with
    | keep l => exact hrest.keep
    | swap first others new more =>
      have hold : written (Change.swap first others new more).old = first.gap ++ bare (first :: others) := rfl
      have hnew : written (Change.swap first others new more).new = first.gap ++ bare (new :: more) := rfl
      rw [hold, hnew, List.append_assoc, List.append_assoc]
      have hedit := (@Replaced.edit offset first.gap (bare (first :: others)) _ _
        (⟨⟨offset + byteLength first.gap, offset + byteLength (written (first :: others))⟩,
          String.ofList (bare (new :: more))⟩)) rfl (by simp [Nat.add_assoc]) hrest
      rw [String.toList_ofList] at hedit
      exact hedit

end BicepMigration.Template
