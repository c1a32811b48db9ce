import BicepMigration.Proofs.Template.Rewriting
import BicepMigration.Proofs.Template.SoundSpans

/-!
# Nested edits

Edits replace whole characters, and of two of them one lies in the other or they lie apart. A walk over them by start,
outer ones first, makes exactly the outermost edits that lie in the span: what starts before the offset reached lies in
an edit that was made. Main statement: the text of a span has these edits made and all else copied, in whatever order
the edits are given, and where the span is cut outside all edits the text is cut too.
-/

namespace BicepMigration.Template

open Text

instance (text : String) (s : Span) : Decidable (IsSpan text s) :=
  decidable_of_iff ((slice? text s).isSome = true) (by rw [isSpan_iff, Option.isSome_iff_exists])

namespace Edit

instance (e : Edit) (a b : Nat) : Decidable (e.Within a b) := inferInstanceAs (Decidable (_ ∧ _))

instance (e : Edit) (n : Nat) : Decidable (e.Clears n) := inferInstanceAs (Decidable (_ ∨ _))

/-- Two edits have different spans, and one of them lies in the other or they lie apart. -/
def Nests (a b : Edit) : Prop :=
  a.span ≠ b.span ∧ (a.span.stop ≤ b.span.start ∨ b.span.stop ≤ a.span.start ∨
    a.Within b.span.start b.span.stop ∨ b.Within a.span.start a.span.stop)

instance (a b : Edit) : Decidable (a.Nests b) := inferInstanceAs (Decidable (_ ∧ _))

/-- Edits that stand apart or one inside the other do so in either order. -/
theorem Nests.symm {a b : Edit} (h : a.Nests b) : b.Nests a := by
  obtain ⟨hne, hapart | hapart | hwithin | hwithin⟩ := h
  · exact ⟨hne.symm, .inr (.inl hapart)⟩
  · exact ⟨hne.symm, .inl hapart⟩
  · exact ⟨hne.symm, .inr (.inr (.inr hwithin))⟩
  · exact ⟨hne.symm, .inr (.inr (.inl hwithin))⟩

variable {first e : Edit}

/-- The order of edits tells apart those with different spans. -/
theorem Nests.not_precedes (h : first.Nests e) (hp : first.precedes e = true) : e.precedes first = false := by
  refine Bool.eq_false_iff.2 fun hp' => h.1 ?_
  simp only [precedes, Bool.or_eq_true, Bool.and_eq_true, decide_eq_true_eq] at hp hp'
  obtain ⟨⟨a, b⟩, _⟩ := first
  obtain ⟨⟨c, d⟩, _⟩ := e
  simp only [Span.mk.injEq] at hp hp' ⊢
  omega

/-- An edit lies in none that comes later. -/
theorem Nests.not_within (h : first.Nests e) (hp : first.precedes e = true) :
    ¬ first.Within e.span.start e.span.stop := by
  intro hw
  have hnot := h.not_precedes hp
  simp only [Within] at hw
  simp only [precedes, Bool.or_eq_true, Bool.and_eq_true, decide_eq_true_eq, Bool.or_eq_false_iff,
    Bool.and_eq_false_iff, decide_eq_false_iff_not] at hp hnot
  omega

/-- An edit that comes later lies in the first one or after it. -/
theorem Nests.within_or_after (h : first.Nests e) (hp : first.precedes e = true) (he : e.span.start < e.span.stop) :
    e.Within first.span.start first.span.stop ∨ first.span.stop ≤ e.span.start := by
  have hstart := start_le_of_precedes hp
  rcases h.2 with hapart | hapart | hwithin | hwithin
  · exact .inr hapart
  · omega
  · exact absurd hwithin (h.not_within hp)
  · exact .inl hwithin

end Edit

section Changes

variable {offset : Nat} {cs : List Change} {own e : Edit} {blocks uses : List Edit} {ls : List Lexeme}

/-- The edits of changes stand one after another. -/
theorem pairwise_editsFrom (offset : Nat) (cs : List Change) :
    (editsFrom offset cs).Pairwise fun a b => a.span.stop ≤ b.span.start := by
  induction cs generalizing offset with
  | nil => exact .nil
  | cons c cs ih =>
    rw [editsFrom_cons, List.pairwise_append]
    refine ⟨?_, ih _, fun a ha b hb => ?_⟩
    · cases c.edit? offset with
      | none => exact .nil
      | some edit => exact List.pairwise_singleton _ _
    · have hcovers : c.Covers offset a := ⟨a, by simpa using ha, .inl rfl⟩
      exact Nat.le_trans hcovers.bounds.2 (fits_of_mem_editsFrom hb).2.1

/-- An edit that fits changes stands outside each edit of them or in it. -/
theorem Fits.apart_or_within (h : Fits e offset cs) (ho : own ∈ editsFrom offset cs) :
    e.span.stop ≤ own.span.start ∨ own.span.stop ≤ e.span.start ∨ e.Within own.span.start own.span.stop := by
  induction cs generalizing offset with
  | nil => cases ho
  | cons c cs ih =>
    have hstart := (fits_of_mem_editsFrom ho).2.1
    rw [editsFrom_cons, List.mem_append] at ho
    rcases ho with ho | ho
    · have hown : c.edit? offset = some own := by simpa using ho
      rcases h with hbefore | ⟨other, hother, hin⟩ | ⟨hafter, -⟩
      · exact .inl (Nat.le_trans hbefore hstart)
      · obtain rfl := Option.some.inj (hown.symm.trans hother)
        rcases hin with rfl | ⟨hle, hge, -⟩
        · exact .inr (.inr ⟨Nat.le_refl _, Nat.le_refl _⟩)
        · exact .inr (.inr ⟨hle, hge⟩)
      · have hcovers : c.Covers offset own := ⟨own, hown, .inl rfl⟩
        exact .inr (.inl (Nat.le_trans hcovers.bounds.2 hafter))
    · have hlater := (fits_of_mem_editsFrom ho).2.1
      rcases h with hbefore | hcovers | ⟨-, hrest⟩
      · exact .inl (Nat.le_trans hbefore hstart)
      · exact .inl (Nat.le_trans hcovers.bounds.2 hlater)
      · exact ih hrest ho

/-- Edits that stand apart, the first of which replaces something, are nested. -/
theorem Edit.nests_of_apart (ho : own.span.start < own.span.stop)
    (h : own.span.stop ≤ e.span.start ∨ e.span.stop ≤ own.span.start) : own.Nests e := by
  refine ⟨fun hspan => ?_, h.imp_right .inl⟩
  rw [← hspan] at h
  omega

/-- The statements that are written anew stand apart from one another, as the changes do. -/
theorem Frames.apart (h : Frames blocks uses offset ls cs) :
    blocks.Pairwise fun a b => a.span.stop ≤ b.span.start ∨ b.span.stop ≤ a.span.start := by
  have hapart : (editsFrom offset cs).Pairwise fun a b =>
      a.span.stop ≤ b.span.start ∨ b.span.stop ≤ a.span.start := (pairwise_editsFrom offset cs).imp .inl
  have hboth := (h.perm.pairwise_iff fun {a b} hab => Or.symm hab).1 hapart
  exact (List.pairwise_append.1 hboth).1

/-- A use stands outside each statement that is written anew or in it. -/
theorem Frames.apart_or_within (h : Frames blocks uses offset ls cs) {b : Edit} (hb : b ∈ blocks) (he : e ∈ uses) :
    e.span.stop ≤ b.span.start ∨ b.span.stop ≤ e.span.start ∨ e.Within b.span.start b.span.stop :=
  (h.fits e (List.mem_append_right _ he)).apart_or_within (h.perm.mem_iff.2 (List.mem_append_left _ hb))

/-- The edits that rewrite a template are nested. -/
theorem Frames.nests (h : Frames blocks uses offset ls cs) (huses : uses.Pairwise fun a b => a.span.stop ≤ b.span.start)
    (hlt : ∀ e ∈ uses, e.span.start < e.span.stop) : (uses ++ blocks).Pairwise Edit.Nests := by
  refine List.pairwise_append.2 ⟨huses.imp_of_mem fun ha _ hab => Edit.nests_of_apart (hlt _ ha) (.inl hab),
    h.apart.imp_of_mem fun ha _ => Edit.nests_of_apart (h.bounds _ ha).2.1, fun e he b hb => ?_⟩
  exact ⟨h.distinct b hb e he, (h.apart_or_within hb he).imp_right (.imp_right .inl)⟩

end Changes

/-- Edits of a text that may stand in one another and do not overlap otherwise. -/
structure AreNested (source : String) (edits : List Edit) : Prop where
  start_lt_stop : ∀ e ∈ edits, e.span.start < e.span.stop
  isSpan : ∀ e ∈ edits, IsSpan source e.span
  nests : edits.Pairwise Edit.Nests

/-- The edit lies in a span, and in no other edit there. -/
def IsOutermost (edits : List Edit) (span : Span) (e : Edit) : Prop :=
  e ∈ edits ∧ e.Within span.start span.stop ∧
    ∀ d ∈ edits, d.Within span.start span.stop → e.Within d.span.start d.span.stop → d = e

namespace EditedText

/-- The edits that are made in the text from an offset to a later one. -/
def madeFrom (stop : Nat) : Nat → List Edit → List Edit
  | _, [] => []
  | cursor, e :: rest =>
    if e.span.start < cursor || stop < e.span.stop then madeFrom stop cursor rest
    else e :: madeFrom stop e.span.stop rest

section Made

variable {source : String} {stop cursor : Nat} {edits rest : List Edit} {first e : Edit}

/-- An edit is passed over if it does not stand within the rest of the span. -/
theorem passes_iff : (first.span.start < cursor || stop < first.span.stop) = true ↔ ¬ first.Within cursor stop := by
  simp only [Edit.Within, Bool.or_eq_true, decide_eq_true_eq]
  omega

/-- Edits that are made are some of all. -/
theorem madeFrom_sublist (stop cursor : Nat) (edits : List Edit) : (madeFrom stop cursor edits).Sublist edits := by
  induction edits generalizing cursor with
  | nil => exact .slnil
  | cons e rest ih =>
    unfold madeFrom
    split
    · exact (ih cursor).cons e
    · exact (ih e.span.stop).cons_cons e

/-- The edits that are not made can be left out. -/
theorem textFrom_madeFrom (source : String) (stop cursor : Nat) (edits : List Edit) :
    textFrom source stop cursor (madeFrom stop cursor edits) = textFrom source stop cursor edits := by
  induction edits generalizing cursor with
  | nil => rfl
  | cons e rest ih =>
    by_cases h : (e.span.start < cursor || stop < e.span.stop) = true
    · rw [madeFrom, if_pos h, ih, textFrom, if_pos h]
    · rw [madeFrom, if_neg h, textFrom, if_neg h, ih, textFrom, if_neg h]

/-- A span is as long as its text. -/
theorem stop_of_isSpan {s : Span} (h : IsSpan source s) : s.stop = s.start + byteLength (slice source s).toList := by
  obtain ⟨before, middle, after, htext, hstart, hstop⟩ := h.exists_parts
  rw [toList_slice_of_append htext hstart hstop, hstop]

/-- The text has the edits made and all else copied. -/
theorem replaced_madeFrom (he : ∀ e ∈ edits, IsSpan source e.span) (hs : IsSpan source ⟨cursor, stop⟩) :
    Replaced cursor (slice source ⟨cursor, stop⟩).toList (madeFrom stop cursor edits)
      (textFrom source stop cursor edits).toList := by
  induction edits generalizing cursor with
  | nil => exact .copy _ _
  | cons e rest ih =>
    obtain ⟨hspan, hrest⟩ := List.forall_mem_cons.1 he
    unfold madeFrom textFrom
    split
    · exact ih hrest hs
    · next hin =>
      simp only [Bool.or_eq_true, decide_eq_true_eq, not_or, Nat.not_lt] at hin
      have hbefore := isSpan_of_boundaries hs.start_boundary hspan.start_boundary hin.1
      have hafter := isSpan_of_boundaries hspan.stop_boundary hs.stop_boundary hin.2
      have hold : (slice source ⟨cursor, stop⟩).toList = (slice source ⟨cursor, e.span.start⟩).toList ++
          ((slice source e.span).toList ++ (slice source ⟨e.span.stop, stop⟩).toList) := by
        rw [toList_slice_append hs.start_boundary hspan.start_boundary hin.1 (Nat.le_trans hspan.start_le hin.2),
          toList_slice_append hspan.start_boundary hspan.stop_boundary hspan.start_le hin.2]
      rw [hold, String.toList_append, String.toList_append, List.append_assoc]
      exact .edit (stop_of_isSpan hbefore) (stop_of_isSpan hspan) (ih hrest hafter)

/-- An edit that does not lie in the span does not count. -/
theorem isOutermost_cons_of_not_within (h : ¬ first.Within cursor stop) :
    IsOutermost (first :: rest) ⟨cursor, stop⟩ e ↔ IsOutermost rest ⟨cursor, stop⟩ e := by
  constructor
  · rintro ⟨he, hw, hmax⟩
    have hne : e ≠ first := fun heq => h (heq ▸ hw)
    exact ⟨(List.mem_cons.1 he).resolve_left hne, hw, fun d hd => hmax d (List.mem_cons_of_mem _ hd)⟩
  · rintro ⟨he, hw, hmax⟩
    refine ⟨List.mem_cons_of_mem _ he, hw, fun d hd hdw => ?_⟩
    have hne : d ≠ first := fun heq => h (heq ▸ hdw)
    exact hmax d ((List.mem_cons.1 hd).resolve_left hne) hdw

/-- The first edit in the span is an outermost one, and the others come after it. -/
theorem isOutermost_cons_of_within (ho : InOrder (first :: rest)) (hlt : ∀ d ∈ first :: rest, d.span.start < d.span.stop)
    (hn : (first :: rest).Pairwise Edit.Nests) (h : first.Within cursor stop) :
    IsOutermost (first :: rest) ⟨cursor, stop⟩ e ↔ e = first ∨ IsOutermost rest ⟨first.span.stop, stop⟩ e := by
  obtain ⟨horder, -⟩ := List.pairwise_cons.1 ho
  obtain ⟨hnests, -⟩ := List.pairwise_cons.1 hn
  have hfirst := hlt first List.mem_cons_self
  have hwiden (d : Edit) (hw : d.Within first.span.stop stop) : d.Within cursor stop := by
    simp only [Edit.Within] at h hw ⊢
    omega
  constructor
  · rintro ⟨he, hw, hmax⟩
    rcases List.mem_cons.1 he with heq | he
    · exact .inl heq
    · rcases (hnests e he).within_or_after (horder e he) (hlt e (List.mem_cons_of_mem _ he)) with hinside | hafter
      · exact .inl (hmax first List.mem_cons_self h hinside).symm
      · exact .inr ⟨he, ⟨hafter, hw.2⟩, fun d hd hdw => hmax d (List.mem_cons_of_mem _ hd) (hwiden d hdw)⟩
  · rintro (rfl | ⟨he, hw, hmax⟩)
    · refine ⟨List.mem_cons_self, h, fun d hd _ hed => ?_⟩
      rcases List.mem_cons.1 hd with heq | hd
      · exact heq
      · exact absurd hed ((hnests d hd).not_within (horder d hd))
    · refine ⟨List.mem_cons_of_mem _ he, hwiden e hw, fun d hd hdw hed => ?_⟩
      have hlt' := hlt e (List.mem_cons_of_mem _ he)
      have hnot : ¬ e.Within first.span.start first.span.stop := by
        simp only [Edit.Within] at hw ⊢
        omega
      rcases List.mem_cons.1 hd with rfl | hd
      · exact absurd hed hnot
      · -- an edit around `e` does not lie in the first one, because `e` does not
        refine hmax d hd ⟨?_, hdw.2⟩ hed
        refine ((hnests d hd).within_or_after (horder d hd) (hlt d (List.mem_cons_of_mem _ hd))).resolve_left fun hin => hnot ?_
        simp only [Edit.Within] at hin hed ⊢
        omega

/-- The edits that are made are the outermost ones. -/
theorem mem_madeFrom_iff (ho : InOrder edits) (hlt : ∀ d ∈ edits, d.span.start < d.span.stop)
    (hn : edits.Pairwise Edit.Nests) : e ∈ madeFrom stop cursor edits ↔ IsOutermost edits ⟨cursor, stop⟩ e := by
  induction edits generalizing cursor with
  | nil => simp [madeFrom, IsOutermost]
  | cons first rest ih =>
    have ih' (n : Nat) := @ih n (List.pairwise_cons.1 ho).2 (fun d hd => hlt d (List.mem_cons_of_mem _ hd))
      (List.pairwise_cons.1 hn).2
    unfold madeFrom
    split
    · next hpass => rw [isOutermost_cons_of_not_within (passes_iff.1 hpass), ih']
    · next hin =>
      have hw : first.Within cursor stop := Classical.not_not.1 fun h => hin (passes_iff.2 h)
      rw [isOutermost_cons_of_within ho hlt hn hw, List.mem_cons, ih']

/-- Where the slices can be taken, the ends are those of a span. -/
theorem isSpan_of_textFrom? {text : String} (hlt : ∀ d ∈ edits, d.span.start < d.span.stop)
    (h : textFrom? source stop cursor edits = some text) : IsSpan source ⟨cursor, stop⟩ := by
  induction edits generalizing cursor text with
  | nil => exact isSpan_of_slice? h
  | cons e rest ih =>
    obtain ⟨hfirst, hrest⟩ := List.forall_mem_cons.1 hlt
    unfold textFrom? at h
    split at h
    · exact ih hrest h
    · obtain ⟨before, hbefore, h⟩ := Option.bind_eq_some_iff.1 h
      obtain ⟨after, hafter, -⟩ := Option.map_eq_some_iff.1 h
      have hb := isSpan_of_slice? hbefore
      have ha := ih hrest hafter
      exact isSpan_of_boundaries hb.start_boundary ha.stop_boundary
        (Nat.le_trans hb.start_le (Nat.le_trans (Nat.le_of_lt hfirst) ha.start_le))

end Made

end EditedText

section Nested

open EditedText

variable {source : String} {edits : List Edit}

namespace AreNested

/-- Nested edits stay so when they are put in order. -/
theorem ofEdits (h : AreNested source edits) : AreNested source (EditedText.ofEdits source edits).edits where
  start_lt_stop e he := h.start_lt_stop e (mem_ofEdits.1 he)
  isSpan e he := h.isSpan e (mem_ofEdits.1 he)
  nests := ((List.mergeSort_perm edits Edit.precedes).pairwise_iff Edit.Nests.symm).2 h.nests

/-- Fewer edits are nested too. -/
theorem sublist (h : AreNested source edits) {fewer : List Edit} (hs : fewer.Sublist edits) :
    AreNested source fewer where
  start_lt_stop e he := h.start_lt_stop e (hs.subset he)
  isSpan e he := h.isSpan e (hs.subset he)
  nests := h.nests.sublist hs

/-- The order in which nested edits are given does not matter. -/
theorem ofEdits_eq_of_perm (h : AreNested source edits) {others : List Edit} (hp : others.Perm edits) :
    EditedText.ofEdits source others = EditedText.ofEdits source edits := by
  have hstrict : (EditedText.ofEdits source edits).edits.Pairwise fun a b => b.precedes a = false :=
    (inOrder_ofEdits source edits).imp₂ (fun _ _ hprecedes hnests => hnests.not_precedes hprecedes) h.ofEdits.nests
  exact ofEdits_of_perm (hp.trans (List.mergeSort_perm edits Edit.precedes).symm) hstrict

end AreNested

/-- The text of a span with edits: what is replaced in it, and how it depends on the edits and on the span. -/
structure IsSpliced (source : String) (edits : List Edit) (span : Span) : Prop where
  /-- The slices of the source can be taken. -/
  sliced : (EditedText.ofEdits source edits).text? span = some ((EditedText.ofEdits source edits).text span)
  /-- The outermost edits in the span are made, each one once, and all else is copied. Without the other edits the text
  is the same. -/
  replaced : ∃ outermost, (∀ e, e ∈ outermost ↔ IsOutermost edits span e) ∧
    Replaced span.start (slice source span).toList outermost ((EditedText.ofEdits source edits).text span).toList ∧
    (EditedText.ofEdits source outermost).text span = (EditedText.ofEdits source edits).text span
  /-- The edits can be given in any order. -/
  order : ∀ others : List Edit, others.Perm edits →
    (EditedText.ofEdits source others).text span = (EditedText.ofEdits source edits).text span
  /-- A cut that falls inside no edit cuts the text. -/
  cut : ∀ n, span.start ≤ n → n ≤ span.stop → IsBoundary source.toList n → (∀ e ∈ edits, e.Clears n) →
    (EditedText.ofEdits source edits).text span =
      (EditedText.ofEdits source edits).text ⟨span.start, n⟩ ++ (EditedText.ofEdits source edits).text ⟨n, span.stop⟩

/-- Nested edits are made so that the outer ones count. -/
theorem AreNested.isSpliced (h : AreNested source edits) {span : Span} (hs : IsSpan source span) :
    IsSpliced source edits span where
  sliced := text?_eq h.ofEdits.isSpan hs
  replaced := by
    refine ⟨madeFrom span.stop span.start (EditedText.ofEdits source edits).edits, fun e => ?_,
      replaced_madeFrom h.ofEdits.isSpan hs, ?_⟩
    · rw [mem_madeFrom_iff (inOrder_ofEdits source edits) h.ofEdits.start_lt_stop h.ofEdits.nests]
      simp only [IsOutermost, mem_ofEdits]
    · rw [ofEdits_of_pairwise ((inOrder_ofEdits source edits).sublist (madeFrom_sublist _ _ _))]
      exact textFrom_madeFrom source span.stop span.start (EditedText.ofEdits source edits).edits
  order others hp := by rw [h.ofEdits_eq_of_perm hp]
  cut n hstart hstop hn hclear := by
    have hsound : ∀ e ∈ (EditedText.ofEdits source edits).edits, e.IsSound source.toList := fun e he =>
      ⟨h.ofEdits.start_lt_stop e he, (h.ofEdits.isSpan e he).stop_boundary⟩
    rw [← String.toList_inj, String.toList_append]
    exact toList_textFrom_append (inOrder_ofEdits source edits) hsound (fun e he => hclear e (mem_ofEdits.1 he))
      hs.start_boundary hn hstart hstop

/-- The text of a span around a part that no edit crosses is put together from that of the part and of what stands
before and after it. -/
theorem AreNested.text_around (h : AreNested source edits) {span part : Span} (hs : IsSpan source span)
    (hp : IsSpan source part) (hstart : span.start ≤ part.start) (hstop : part.stop ≤ span.stop)
    (hclear : ∀ e ∈ edits, e.Clears part.start ∧ e.Clears part.stop) :
    (EditedText.ofEdits source edits).text span =
      (EditedText.ofEdits source edits).text ⟨span.start, part.start⟩ ++ (EditedText.ofEdits source edits).text part ++
        (EditedText.ofEdits source edits).text ⟨part.stop, span.stop⟩ := by
  have hleft := isSpan_of_boundaries hs.start_boundary hp.stop_boundary (Nat.le_trans hstart hp.start_le)
  rw [(h.isSpliced hs).cut part.stop (Nat.le_trans hstart hp.start_le) hstop hp.stop_boundary fun e he => (hclear e he).2,
    (h.isSpliced hleft).cut part.start hstart hp.start_le hp.start_boundary fun e he => (hclear e he).1]

/-- The span of an edit has the replacement as its text. -/
theorem AreNested.text_of_mem (h : AreNested source edits) {e : Edit} (he : e ∈ edits) :
    (EditedText.ofEdits source edits).text e.span = e.replacement := by
  have hmem : e ∈ (EditedText.ofEdits source edits).edits := mem_ofEdits.2 he
  have : Std.Symm Edit.Nests := ⟨fun _ _ => Edit.Nests.symm⟩
  refine String.toList_inj.1 (textFrom_of_mem (inOrder_ofEdits source edits) h.ofEdits.start_lt_stop hmem
    fun d hd hspan => Decidable.byContradiction fun hne => ?_)
  exact (h.ofEdits.nests.forall hd hmem hne).1 hspan

/-- A span in which there is no edit keeps its text. -/
theorem text_of_not_within {span : Span} (h : ∀ e ∈ edits, ¬ e.Within span.start span.stop) :
    (EditedText.ofEdits source edits).text span = slice source span :=
  textFrom_of_not_within fun e he => h e (mem_ofEdits.1 he)

/-- With nested edits exactly the spans of a text have a text, and it is the source with the outermost edits in the
span made. -/
theorem splice_outermost (h : AreNested source edits) (span : Span) :
    (IsSpan source span → IsSpliced source edits span) ∧
      (¬ IsSpan source span → (EditedText.ofEdits source edits).text? span = none) := by
  refine ⟨h.isSpliced, fun hs => Option.eq_none_iff_forall_ne_some.2 fun text htext => hs ?_⟩
  exact isSpan_of_textFrom? h.ofEdits.start_lt_stop htext

end Nested

/-- A text with a character of two bytes. -/
def meetingSource : String := "x=é(ab)c"

/-- Edits of it: one around the others, two that start alike, and two that meet. -/
def meetingEdits : List Edit :=
  [⟨⟨5, 6⟩, "A"⟩, ⟨⟨8, 9⟩, "C"⟩, ⟨⟨2, 9⟩, "whole"⟩, ⟨⟨5, 7⟩, "inner"⟩, ⟨⟨4, 8⟩, "outer"⟩]

/-- A span may start inside an edit, and it may not start inside a character. -/
theorem splice_outermost_meeting :
    AreNested meetingSource meetingEdits ∧ IsSpan meetingSource ⟨5, 9⟩ ∧ IsSpliced meetingSource meetingEdits ⟨5, 9⟩ ∧
      (EditedText.ofEdits meetingSource meetingEdits).text ⟨5, 9⟩ = "inner)C" ∧ ¬ IsSpan meetingSource ⟨3, 9⟩ ∧
      (EditedText.ofEdits meetingSource meetingEdits).text? ⟨3, 9⟩ = none := by
  have h : AreNested meetingSource meetingEdits := ⟨by decide, by decide, by decide⟩
  have hs : IsSpan meetingSource ⟨5, 9⟩ := by decide
  have hcut : ¬ IsSpan meetingSource ⟨3, 9⟩ := by decide
  have hsorted : EditedText.ofEdits meetingSource meetingEdits = ⟨meetingSource, [⟨⟨2, 9⟩, "whole"⟩, ⟨⟨4, 8⟩, "outer"⟩,
      ⟨⟨5, 7⟩, "inner"⟩, ⟨⟨5, 6⟩, "A"⟩, ⟨⟨8, 9⟩, "C"⟩]⟩ := EditedText.ofEdits_of_perm (by decide) (by decide)
  exact ⟨h, hs, (splice_outermost h ⟨5, 9⟩).1 hs, by rw [hsorted]; decide, hcut, (splice_outermost h ⟨3, 9⟩).2 hcut⟩

end BicepMigration.Template
