import BicepMigration.Proofs.Text.Slice
import BicepMigration.Template.EditedText
import Mathlib.Data.List.Pairwise

/-!
# Splicing by parts

The text of a span with edits can be put together from the texts of its parts, wherever a cut falls inside
no edit. A part that holds no edit keeps its text, and a part that is an edit itself becomes the replacement,
whatever edits stand inside it. Edits of empty spans are not spoken about.
-/

namespace BicepMigration.Template

open Text

namespace Edit

/-- The order of edits is transitive. -/
theorem precedes_trans (a b c : Edit) (hab : a.precedes b = true) (hbc : b.precedes c = true) :
    a.precedes c = true := by
  simp only [precedes, Bool.or_eq_true, Bool.and_eq_true, decide_eq_true_eq] at *
  omega

/-- Of two edits one precedes the other. -/
theorem precedes_total (a b : Edit) : (a.precedes b || b.precedes a) = true := by
  simp only [precedes, Bool.or_eq_true, Bool.and_eq_true, decide_eq_true_eq]
  omega

/-- An edit that comes later starts no earlier. -/
theorem start_le_of_precedes {a b : Edit} (h : a.precedes b = true) : a.span.start ≤ b.span.start := by
  simp only [precedes, Bool.or_eq_true, Bool.and_eq_true, decide_eq_true_eq] at h
  omega

/-- A place does not fall inside an edit. -/
def Clears (e : Edit) (n : Nat) : Prop := e.span.stop ≤ n ∨ n ≤ e.span.start

/-- An edit lies in a range. -/
def Within (e : Edit) (a b : Nat) : Prop := a ≤ e.span.start ∧ e.span.stop ≤ b

/-- An edit replaces at least a byte, and only whole characters. -/
structure IsSound (cs : List Char) (e : Edit) : Prop where
  start_lt_stop : e.span.start < e.span.stop
  boundary : IsBoundary cs e.span.stop

end Edit

/-- Edits by start, outer ones first. -/
def InOrder (edits : List Edit) : Prop := edits.Pairwise fun a b => a.precedes b = true

namespace EditedText

/-- Edits are put in order. -/
theorem inOrder_ofEdits (source : String) (edits : List Edit) : InOrder (ofEdits source edits).edits :=
  List.pairwise_mergeSort Edit.precedes_trans Edit.precedes_total edits

/-- No edit is lost. -/
theorem mem_ofEdits {source : String} {edits : List Edit} {e : Edit} :
    e ∈ (ofEdits source edits).edits ↔ e ∈ edits :=
  List.mem_mergeSort

/-- Edits that the range does not hold are passed over. -/
theorem textFrom_of_not_within {source : String} {stop start : Nat} {edits : List Edit}
    (h : ∀ e ∈ edits, ¬ e.Within start stop) :
    textFrom source stop start edits = slice source ⟨start, stop⟩ := by
  induction edits with
  | nil => rfl
  | cons e rest ih =>
    have he := h e (by simp)
    have hs : (e.span.start < start || stop < e.span.stop) = true := by
      simp only [Edit.Within, Bool.or_eq_true, decide_eq_true_eq] at he ⊢
      omega
    rw [textFrom, if_pos hs]
    exact ih fun e' he' => h e' (List.mem_cons_of_mem _ he')

/-- A cut that falls inside no edit divides the work. -/
theorem toList_textFrom_append {source : String} {start middle stop : Nat} {edits : List Edit}
    (ho : InOrder edits) (hsound : ∀ e ∈ edits, e.IsSound source.toList)
    (hclear : ∀ e ∈ edits, e.Clears middle) (hstart : IsBoundary source.toList start)
    (hmiddle : IsBoundary source.toList middle) (hsm : start ≤ middle) (hms : middle ≤ stop) :
    (textFrom source stop start edits).toList =
      (textFrom source middle start edits).toList ++ (textFrom source stop middle edits).toList := by
  induction edits generalizing start with
  | nil => exact toList_slice_append hstart hmiddle hsm hms
  | cons e rest ih =>
    obtain ⟨hfirst, hrest⟩ := List.pairwise_cons.1 ho
    obtain ⟨hlt, hb⟩ := hsound e (by simp)
    have hsound' : ∀ e' ∈ rest, e'.IsSound source.toList := fun e' he' => hsound e' (List.mem_cons_of_mem _ he')
    have hclear' : ∀ e' ∈ rest, e'.Clears middle := fun e' he' => hclear e' (List.mem_cons_of_mem _ he')
    by_cases hskip : e.span.start < start ∨ stop < e.span.stop
    · -- the edit is passed over in the whole and in both parts
      have hw : (e.span.start < start || stop < e.span.stop) = true := by simpa using hskip
      have hl : (e.span.start < start || middle < e.span.stop) = true := by
        simp only [Bool.or_eq_true, decide_eq_true_eq]
        omega
      have hr : (e.span.start < middle || stop < e.span.stop) = true := by
        simp only [Bool.or_eq_true, decide_eq_true_eq]
        omega
      rw [textFrom, if_pos hw, textFrom, if_pos hl, textFrom, if_pos hr]
      exact ih hrest hsound' hclear' hstart hsm
    · have hw : ¬ (e.span.start < start || stop < e.span.stop) = true := by simpa using hskip
      rcases hclear e (by simp) with hleft | hright
      · -- the edit falls into the left part
        have hl : ¬ (e.span.start < start || middle < e.span.stop) = true := by
          simp only [Bool.or_eq_true, decide_eq_true_eq]
          omega
        have hr : (e.span.start < middle || stop < e.span.stop) = true := by
          simp only [Bool.or_eq_true, decide_eq_true_eq]
          omega
        rw [textFrom, if_neg hw, textFrom, if_neg hl, textFrom, if_pos hr]
        simp only [String.toList_append, List.append_assoc]
        rw [ih hrest hsound' hclear' hb hleft]
      · -- the edit falls into the right part, and so do all after it
        have hr : ¬ (e.span.start < middle || stop < e.span.stop) = true := by
          simp only [Bool.or_eq_true, decide_eq_true_eq]
          omega
        have hleft : ∀ e' ∈ e :: rest, ¬ e'.Within start middle := by
          intro e' he'
          have hle : e.span.start ≤ e'.span.start := by
            rcases List.mem_cons.1 he' with rfl | he''
            · exact Nat.le_refl _
            · exact Edit.start_le_of_precedes (hfirst e' he'')
          have hlt' := (hsound e' he').start_lt_stop
          simp only [Edit.Within]
          omega
        rw [textFrom_of_not_within hleft, textFrom, if_neg hw, textFrom, if_neg hr]
        simp only [String.toList_append]
        rw [toList_slice_append hstart hmiddle hsm hright]
        simp only [List.append_assoc]

/-- The text of the span of an edit is its replacement, if no other edit has the same span. -/
theorem textFrom_of_mem {source : String} {edits : List Edit} {e : Edit} (ho : InOrder edits)
    (hlt : ∀ e' ∈ edits, e'.span.start < e'.span.stop) (he : e ∈ edits)
    (hunique : ∀ e' ∈ edits, e'.span = e.span → e' = e) :
    (textFrom source e.span.stop e.span.start edits).toList = e.replacement.toList := by
  induction edits with
  | nil => simp at he
  | cons d rest ih =>
    obtain ⟨hfirst, hrest⟩ := List.pairwise_cons.1 ho
    by_cases hd : d = e
    · subst hd
      have hw : ¬ (d.span.start < d.span.start || d.span.stop < d.span.stop) = true := by simp
      have hn : ∀ e' ∈ rest, ¬ e'.Within d.span.stop d.span.stop := by
        intro e' he'
        have hlt' := hlt e' (List.mem_cons_of_mem _ he')
        simp only [Edit.Within]
        omega
      have hz (n : Nat) : (slice source ⟨n, n⟩).toList = [] := by simp [slice, takeBytes]
      rw [textFrom, if_neg hw, textFrom_of_not_within hn]
      simp only [String.toList_append, hz, List.nil_append, List.append_nil]
    · have her : e ∈ rest := (List.mem_cons.1 he).resolve_left fun h => hd h.symm
      have hp := hfirst e her
      have hne : d.span ≠ e.span := fun h => hd (hunique d (by simp) h)
      have hs : (d.span.start < e.span.start || e.span.stop < d.span.stop) = true := by
        have hne' : d.span.start ≠ e.span.start ∨ d.span.stop ≠ e.span.stop := by
          by_cases h : d.span.start = e.span.start
          · right
            intro h'
            exact hne (by cases hd' : d.span; cases he' : e.span; simp_all)
          · exact Or.inl h
        simp only [Edit.precedes, Bool.or_eq_true, Bool.and_eq_true, decide_eq_true_eq] at hp ⊢
        omega
      rw [textFrom, if_pos hs]
      exact ih hrest (fun e' he' => hlt e' (List.mem_cons_of_mem _ he')) her
        fun e' he' => hunique e' (List.mem_cons_of_mem _ he')

/-- Edits that are given in their order stay in it. -/
theorem ofEdits_of_pairwise {source : String} {edits : List Edit} (h : edits.Pairwise fun a b => a.precedes b = true) :
    ofEdits source edits = ⟨source, edits⟩ := by
  rw [ofEdits, List.mergeSort_of_pairwise h]

/-- Edits that are given in any order are put in theirs, if it tells them apart. -/
theorem ofEdits_of_perm {source : String} {edits sorted : List Edit} (hp : edits.Perm sorted)
    (hs : sorted.Pairwise fun a b => b.precedes a = false) : ofEdits source edits = ⟨source, sorted⟩ := by
  have : Std.Symm fun a b : Edit => ¬ (a.precedes b = true ∧ b.precedes a = true) := ⟨fun _ _ h h' => h h'.symm⟩
  have hordered : InOrder sorted := hs.imp fun {a b} h => by simpa [h] using Edit.precedes_total a b
  have happart := (hs.imp fun {a b} h => show ¬ (a.precedes b = true ∧ b.precedes a = true) by simp [h]).forall
  have hsorted : edits.mergeSort Edit.precedes = sorted := by
    refine List.Perm.eq_of_pairwise ?_ (inOrder_ofEdits source edits) hordered ((List.mergeSort_perm _ _).trans hp)
    intro a b ha hb hab hba
    exact Classical.byContradiction fun hne => happart (hp.mem_iff.1 (List.mem_mergeSort.1 ha)) hb hne ⟨hab, hba⟩
  rw [ofEdits, hsorted]

/-- Without edits the whole text stays. -/
theorem apply_ofEdits_nil (source : String) : (ofEdits source []).apply = source := by
  have hsize : byteLength source.toList = source.utf8ByteSize := byteLength_toList source
  have htext : (ofEdits source []).apply = slice source ⟨0, source.utf8ByteSize⟩ := by
    rw [ofEdits, List.mergeSort_nil]
    rfl
  rw [htext, ← String.toList_inj]
  exact (@toList_slice_of_append _ [] _ []) (by simp) rfl (by simp [hsize])

end EditedText

end BicepMigration.Template
