import BicepMigration.Proofs.Template.UseChange

/-!
# Rewriting a template

Some statements of a template are written anew as a whole, and in all others uses of symbols are replaced. Both
are changes of the lexemes. The edits that make them are those of the statements, and those of the uses that stand
outside these statements; uses inside them make no difference to the text.
-/

namespace BicepMigration.Template

open Text

/-- The statements that are written anew, by their number, with the first lexeme of each and the others. -/
abbrev Picks := Nat → Option (Lexeme × List Lexeme)

/-- The changes of a statement: it is written anew, or uses in it are replaced. -/
def statementChanges (pick : Option (Lexeme × List Lexeme)) (first : Lexeme) (body : List Lexeme)
    (run : List Change) : List Change :=
  match pick with
  | none => run
  | some (new, more) => [.swap first body new more]

/-- The changes of a statement are changes of its lexemes. -/
theorem olds_statementChanges (pick : Option (Lexeme × List Lexeme)) {first : Lexeme} {body : List Lexeme}
    {run : List Change} (h : olds run = first :: body) :
    olds (statementChanges pick first body run) = first :: body := by
  cases pick with
  | none => exact h
  | some r => exact List.append_nil _

/-- The changes that rewrite statements from a number on. The lexemes start at a place, and the tokens before them
are given in reverse order. -/
inductive Rewrites (source : String) (symbols : List String) (replace : Replacements) (pick : Picks) :
    Nat → List Token → Cursor → List Lexeme → List Statement → List Change → Prop where
  | done {index : Nat} {before : List Token} {here : Cursor} {ls : List Lexeme} :
      (∀ l ∈ ls, l.kind = .newline) → Rewrites source symbols replace pick index before here ls [] (kept ls)
  | piece {index : Nat} {before : List Token} {here : Cursor} {blank : List Lexeme} {first : Lexeme}
      {body rest : List Lexeme} {s : Statement} {others : List Statement} {run more : List Change} :
      (∀ l ∈ blank, l.kind = .newline) → IsPiece source (here.advance (written blank)) first body rest s →
      ((pick index).isSome → s.body.isSome) → olds run = first :: body →
      useChanges symbols replace ((tokensAt here blank).reverse ++ before) (here.advance (written blank))
          (first :: (body ++ rest)) =
        run ++ useChanges symbols replace
          ((tokensAt (here.advance (written blank)) (first :: body)).reverse ++
            ((tokensAt here blank).reverse ++ before))
          ((here.advance (written blank)).advance (written (first :: body))) rest →
      Rewrites source symbols replace pick (index + 1)
        ((tokensAt (here.advance (written blank)) (first :: body)).reverse ++
          ((tokensAt here blank).reverse ++ before))
        ((here.advance (written blank)).advance (written (first :: body))) rest others more →
      Rewrites source symbols replace pick index before here (blank ++ first :: (body ++ rest)) (s :: others)
        (kept blank ++ (statementChanges (pick index) first body run ++ more))

variable {source : String} {symbols : List String} {replace : Replacements} {pick : Picks}

/-- Nothing runs together with the end of a line. -/
theorem apart_of_atLineEnd {a b : List Lexeme} (h : AtLineEnd b) : Apart a b := by
  intro x y _ hy
  rw [h y hy]
  simp

/-- Statements are rewritten one after another. -/
theorem exists_rewrites {here : Cursor} {ls : List Lexeme} {ss : List Statement} (h : Pieces source here ls ss)
    (index : Nat) (before : List Token)
    (hp : ∀ i s, ss[i]? = some s → (pick (index + i)).isSome → s.body.isSome) :
    ∃ cs, Rewrites source symbols replace pick index before here ls ss cs := by
  induction h generalizing index before with
  | done hls => exact ⟨_, .done hls⟩
  | @piece here blank first body rest s others hblank hpiece _ ih =>
    obtain ⟨run, hrun, holds⟩ := (@useChanges_append symbols replace (first :: body))
      (apart_of_atLineEnd hpiece.ends) ((tokensAt here blank).reverse ++ before)
      (here.advance (written blank))
    obtain ⟨more, hmore⟩ := ih (index + 1)
      ((tokensAt (here.advance (written blank)) (first :: body)).reverse ++
        ((tokensAt here blank).reverse ++ before)) fun i t ht => by
          rw [Nat.add_right_comm, Nat.add_assoc]
          exact hp (i + 1) t (by simpa using ht)
    exact ⟨_, .piece hblank hpiece (hp 0 s rfl) holds hrun hmore⟩

/-- The changes are changes of the lexemes of the statements. -/
theorem Rewrites.olds_eq {index : Nat} {before : List Token} {here : Cursor} {ls : List Lexeme}
    {ss : List Statement} {cs : List Change}
    (h : Rewrites source symbols replace pick index before here ls ss cs) : olds cs = ls := by
  induction h with
  | done _ => exact olds_kept _
  | piece _ _ _ hrun _ _ ih =>
    rw [olds_append, olds_append, olds_kept, olds_statementChanges _ hrun, ih, List.cons_append]

/-- The edits that write statements anew, from a number on. -/
def pickedEdits (pick : Picks) (index : Nat) : List Statement → List Edit
  | [] => []
  | s :: ss =>
    ((pick index).map fun (new, more) => ⟨s.span, String.ofList (bare (new :: more))⟩).toList ++
      pickedEdits pick (index + 1) ss

/-- An edit stands outside all of some others. -/
def outside (blocks : List Edit) (e : Edit) : Bool :=
  blocks.all fun b => e.span.stop ≤ b.span.start || b.span.stop ≤ e.span.start

/-- The edits of uses and statements in a part of a template, against the changes that rewrite it. -/
structure Frames (blocks uses : List Edit) (offset : Nat) (ls : List Lexeme) (cs : List Change) : Prop where
  perm : (editsFrom offset cs).Perm (blocks ++ uses.filter (outside blocks))
  fits : ∀ e ∈ blocks ++ uses, Fits e offset cs
  bounds : ∀ e ∈ blocks, offset ≤ e.span.start ∧ e.span.start < e.span.stop ∧
    e.span.stop ≤ offset + byteLength (written ls)
  distinct : ∀ b ∈ blocks, ∀ e ∈ uses, e.span ≠ b.span

/-- An edit stands outside two lists of edits if it stands outside both. -/
theorem outside_append (a b : List Edit) (e : Edit) : outside (a ++ b) e = (outside a e && outside b e) :=
  List.all_append

/-- An edit stands outside others if it ends before each of them or starts behind it. -/
theorem outside_eq_true_iff {blocks : List Edit} {e : Edit} :
    outside blocks e = true ↔ ∀ b ∈ blocks, e.span.stop ≤ b.span.start ∨ b.span.stop ≤ e.span.start := by
  simp [outside]

/-- Lexemes that are kept make no edit. -/
theorem editsFrom_kept_append (offset : Nat) (ls : List Lexeme) (cs : List Change) :
    editsFrom offset (kept ls ++ cs) = editsFrom (offset + byteLength (written ls)) cs := by
  rw [editsFrom_append, editsFrom_kept, olds_kept, List.nil_append]

/-- Changes after kept lexemes and after others. -/
theorem Fits.after {e : Edit} {offset : Nat} {blank run : List Lexeme} {a b : List Change} (ha : olds a = run)
    (h : offset + byteLength (written blank) + byteLength (written run) ≤ e.span.start)
    (hb : Fits e (offset + byteLength (written blank) + byteLength (written run)) b) :
    Fits e offset (kept blank ++ (a ++ b)) := by
  subst ha
  refine .append_left (by rw [olds_kept]; omega) ?_
  rw [olds_kept]
  exact .append_left h hb

/-- Changes after kept lexemes and before others. -/
theorem Fits.between {e : Edit} {offset : Nat} {blank run : List Lexeme} {a b : List Change} (ha : olds a = run)
    (hs : offset + byteLength (written blank) ≤ e.span.start)
    (h : e.span.stop ≤ offset + byteLength (written blank) + byteLength (written run))
    (hf : Fits e (offset + byteLength (written blank)) a) : Fits e offset (kept blank ++ (a ++ b)) := by
  subst ha
  refine .append_left (by rw [olds_kept]; exact hs) ?_
  rw [olds_kept]
  exact .append_right h hf

section Piece

variable {offset : Nat} {blank : List Lexeme} {first : Lexeme} {body rest : List Lexeme}
  {run more useRun : List Change} {blocks : List Edit}

/-- A statement goes before the others with edits of its own. The uses in it count where they stand outside these. -/
theorem Frames.prepend (own : List Edit) {run' : List Change} (hrun : olds run = first :: body)
    (hrun' : olds run' = first :: body)
    (hown : (editsFrom (offset + byteLength (written blank)) run').Perm
      (own ++ (editsFrom (offset + byteLength (written blank)) run).filter (outside own)))
    (hin : ∀ e ∈ own ++ editsFrom (offset + byteLength (written blank)) run,
      Fits e (offset + byteLength (written blank)) run' ∧ offset + byteLength (written blank) ≤ e.span.start ∧
        e.span.stop ≤ offset + byteLength (written blank) + byteLength (written (first :: body)))
    (hpos : ∀ e ∈ own, e.span.start < e.span.stop)
    (hne : ∀ b ∈ own, ∀ e ∈ editsFrom (offset + byteLength (written blank)) run, e.span ≠ b.span)
    (h : Frames blocks
      (editsFrom (offset + byteLength (written blank) + byteLength (written (first :: body))) useRun)
      (offset + byteLength (written blank) + byteLength (written (first :: body))) rest more) :
    Frames (own ++ blocks) (editsFrom offset (kept blank ++ (run ++ useRun))) offset
      (blank ++ first :: (body ++ rest)) (kept blank ++ (run' ++ more)) := by
  obtain ⟨hperm, hfits, hbounds, hdistinct⟩ := h
  have huses : editsFrom offset (kept blank ++ (run ++ useRun)) =
      editsFrom (offset + byteLength (written blank)) run ++
        editsFrom (offset + byteLength (written blank) + byteLength (written (first :: body))) useRun := by
    rw [editsFrom_kept_append, editsFrom_append, hrun]
  refine ⟨?_, fun e he => ?_, fun b hb => ?_, fun b hb e he => ?_⟩
  · have hbefore : (editsFrom (offset + byteLength (written blank)) run).filter (outside (own ++ blocks)) =
        (editsFrom (offset + byteLength (written blank)) run).filter (outside own) :=
      List.filter_congr fun e he => by
        have hout : outside blocks e = true := outside_eq_true_iff.2 fun b hb =>
          .inl (Nat.le_trans (hin e (List.mem_append_right _ he)).2.2 (hbounds b hb).1)
        rw [outside_append, hout, Bool.and_true]
    have hafter : (editsFrom (offset + byteLength (written blank) + byteLength (written (first :: body))) useRun).filter
          (outside (own ++ blocks)) =
        (editsFrom (offset + byteLength (written blank) + byteLength (written (first :: body))) useRun).filter
          (outside blocks) :=
      List.filter_congr fun e he => by
        have hout : outside own e = true := outside_eq_true_iff.2 fun b hb =>
          .inr (Nat.le_trans (hin b (List.mem_append_left _ hb)).2.2 (fits_of_mem_editsFrom he).2.1)
        rw [outside_append, hout, Bool.true_and]
    rw [huses, List.filter_append, hbefore, hafter, editsFrom_kept_append, editsFrom_append, hrun', List.append_assoc]
    refine (hown.append hperm).trans ?_
    rw [List.append_assoc]
    exact (List.perm_append_comm_assoc _ _ _).append_left own
  · have hbetween {e : Edit} (he : e ∈ own ++ editsFrom (offset + byteLength (written blank)) run) :
        Fits e offset (kept blank ++ (run' ++ more)) := by
      obtain ⟨hfit, hstart, hstop⟩ := hin e he
      exact .between hrun' hstart hstop hfit
    rw [huses, List.mem_append, List.mem_append, List.mem_append] at he
    rcases he with (he | he) | he | he
    · exact hbetween (List.mem_append_left _ he)
    · exact .after hrun' (hbounds e he).1 (hfits e (List.mem_append_left _ he))
    · exact hbetween (List.mem_append_right _ he)
    · exact .after hrun' (fits_of_mem_editsFrom he).2.1 (hfits e (List.mem_append_right _ he))
  · rw [← List.cons_append, written_append, written_append, byteLength_append, byteLength_append]
    rcases List.mem_append.1 hb with hb | hb
    · obtain ⟨-, hstart, hstop⟩ := hin b (List.mem_append_left _ hb)
      have hlt := hpos b hb
      omega
    · obtain ⟨hstart, hlt, hstop⟩ := hbounds b hb
      omega
  · rw [huses, List.mem_append] at he
    rcases List.mem_append.1 hb with hb | hb <;> rcases he with he | he
    · exact hne b hb e he
    · -- the use comes after the statement
      intro hspan
      have hlt := hpos b hb
      have hstop := (hin b (List.mem_append_left _ hb)).2.2
      have hstart := (fits_of_mem_editsFrom he).2.1
      rw [hspan] at hstart
      omega
    · -- the use comes before the others
      intro hspan
      obtain ⟨hstart, hlt, -⟩ := hbounds b hb
      have hstop := (hin e (List.mem_append_right _ he)).2.2
      rw [hspan] at hstop
      omega
    · exact hdistinct b hb e he

/-- A statement in which uses are replaced goes before the others. -/
theorem Frames.stay (hrun : olds run = first :: body)
    (h : Frames blocks
      (editsFrom (offset + byteLength (written blank) + byteLength (written (first :: body))) useRun)
      (offset + byteLength (written blank) + byteLength (written (first :: body))) rest more) :
    Frames blocks (editsFrom offset (kept blank ++ (run ++ useRun))) offset
      (blank ++ first :: (body ++ rest)) (kept blank ++ (run ++ more)) := by
  refine h.prepend [] hrun hrun ?_ (fun e he => hrun ▸ fits_of_mem_editsFrom he) (by simp) (by simp)
  rw [List.filter_eq_self.2 fun e _ => outside_eq_true_iff.2 (by simp), List.nil_append]

/-- A statement that is written anew goes before the others. Uses inside it do not count. -/
theorem Frames.anew {new : Lexeme} {newBody : List Lexeme} (hrun : olds run = first :: body)
    (ht : ∀ l ∈ olds run, l.text ≠ [])
    (hlast : ∀ e ∈ editsFrom (offset + byteLength (written blank)) run,
      e.span.stop < offset + byteLength (written blank) + byteLength (written (first :: body)))
    (hpos : ∀ e ∈ editsFrom (offset + byteLength (written blank)) run, e.span.start < e.span.stop)
    (h : Frames blocks
      (editsFrom (offset + byteLength (written blank) + byteLength (written (first :: body))) useRun)
      (offset + byteLength (written blank) + byteLength (written (first :: body))) rest more) :
    Frames (⟨runSpan (offset + byteLength (written blank)) first body, String.ofList (bare (new :: newBody))⟩ :: blocks)
      (editsFrom offset (kept blank ++ (run ++ useRun))) offset (blank ++ first :: (body ++ rest))
      (kept blank ++ ([.swap first body new newBody] ++ more)) := by
  have hswap : olds [.swap first body new newBody] = first :: body := List.append_nil _
  have hblock : editsFrom (offset + byteLength (written blank)) [.swap first body new newBody] =
      [⟨runSpan (offset + byteLength (written blank)) first body, String.ofList (bare (new :: newBody))⟩] := rfl
  have hstart : ∀ e ∈ editsFrom (offset + byteLength (written blank)) run,
      offset + byteLength (written blank) + byteLength first.gap ≤ e.span.start :=
    fun e he => gap_le_start he hrun
  have hfirst := byteLength_pos (ht first (by simp [hrun]))
  refine h.prepend [_] hrun hswap ?_ (List.forall_mem_cons.2 ⟨?_, fun e he => ?_⟩) ?_ fun b hb e he hspan => ?_
  · -- uses inside the statement are not outside
    rw [hblock, List.filter_eq_nil_iff.2, List.append_nil]
    intro e he hout
    have hin := outside_eq_true_iff.1 hout _ (List.mem_singleton_self _)
    have hstart := hstart e he
    have hlast := hlast e he
    have hpos := hpos e he
    simp only [runSpan] at hin
    omega
  · have hmem := fits_of_mem_editsFrom (hblock ▸ List.mem_singleton_self
      (⟨runSpan (offset + byteLength (written blank)) first body, String.ofList (bare (new :: newBody))⟩ : Edit))
    rwa [hswap] at hmem
  · have hstart := hstart e he
    have hlast := hlast e he
    refine ⟨.inr (.inl ⟨_, rfl, .inr ⟨hstart, ?_, fun hspan => ?_⟩⟩), by omega, by omega⟩
    · simp only
      omega
    · have hstop := congrArg Span.stop hspan
      simp only at hstop
      omega
  · simp only [List.mem_singleton, forall_eq, runSpan, written_cons, byteLength_append]
    omega
  · obtain rfl := List.mem_singleton.1 hb
    have hlast := hlast e he
    rw [hspan] at hlast
    exact absurd hlast (Nat.lt_irrefl _)

end Piece

/-- The changes that rewrite a template are made by the edits of its statements and of the uses outside them. -/
theorem Rewrites.frames {index : Nat} {before : List Token} {here : Cursor} {ls : List Lexeme}
    {ss : List Statement} {cs : List Change}
    (h : Rewrites source symbols replace pick index before here ls ss cs) (ht : ∀ l ∈ ls, l.text ≠ []) :
    Frames (pickedEdits pick index ss) (editsFrom here.offset (useChanges symbols replace before here ls))
      here.offset ls cs := by
  induction h with
  | @done index before here ls hls =>
    have huse := (@useChanges_newlines symbols replace) hls before here []
    rw [List.append_nil] at huse
    rw [huse, useChanges, List.append_nil, editsFrom_kept]
    exact ⟨by simp [pickedEdits], by simp [pickedEdits], by simp [pickedEdits], by simp [pickedEdits]⟩
  | @piece index before here blank first body rest s others run more hblank hpiece hpick hrun huse _ ih =>
    have htrun : ∀ l ∈ olds run, l.text ≠ [] := fun l hl => ht l (by
      rw [hrun] at hl
      rw [← List.cons_append]
      exact List.mem_append_right _ (List.mem_append_left _ hl))
    have hrest := ih fun l hl => ht l (by
      rw [← List.cons_append]
      exact List.mem_append_right _ (List.mem_append_right _ hl))
    rw [useChanges_newlines hblank, huse]
    simp only [Cursor.advance_offset] at hrest
    cases hp : pick index with
    | none =>
      have hpicked : pickedEdits pick index (s :: others) = pickedEdits pick (index + 1) others := by
        simp [pickedEdits, hp]
      rw [hpicked]
      exact hrest.stay hrun
    | some r =>
      obtain ⟨new, newBody⟩ := r
      have hspan := hpiece.span
      rw [Cursor.advance_offset] at hspan
      have hpicked : pickedEdits pick index (s :: others) =
          ⟨runSpan (here.offset + byteLength (written blank)) first body, String.ofList (bare (new :: newBody))⟩ ::
            pickedEdits pick (index + 1) others := by
        simp only [pickedEdits, hp, Option.map_some, Option.toList_some, List.singleton_append, hspan]
      obtain ⟨entries, hbody⟩ := Option.isSome_iff_exists.1 (hpick (by simp [hp]))
      obtain ⟨init, close, hlast, hclose⟩ := hpiece.exists_close hbody
      have htakes : ∀ c ∈ run, c.TakesUse := fun c hc =>
        (@takesUse_useChanges symbols replace) _ _ _ c
          (huse ▸ List.mem_append_left _ hc)
      have hname : close.kind ≠ .identifier := by
        intro hk
        simp [hk, TokenKind.closes] at hclose
      rw [hpicked]
      refine hrest.anew hrun htrun (fun e he => ?_) fun e he => start_lt_stop_of_mem_editsFrom htrun he
      rw [← hrun]
      refine stop_lt_of_takesUse htakes htrun ?_ hname he
      rw [hrun, hlast, List.getLast?_concat]

/-- The text of a template with changes of its lexemes. -/
theorem toList_apply_changes {l : Layout} {cs : List Change} {edits : List Edit} (hs : source.toList = l.chars)
    (hc : olds cs = l.lexemes) (hsub : ∀ e ∈ editsFrom l.start.offset cs, e ∈ edits)
    (he : ∀ e ∈ edits, Fits e l.start.offset cs ∧ e.IsSound source.toList ∧
      e.Within l.start.offset (l.start.offset + byteLength (written l.lexemes))) :
    (EditedText.ofEdits source edits).apply.toList = l.mark ++ (written (news cs) ++ l.tail) := by
  have hoffset : l.start.offset = byteLength l.mark := rfl
  have hmem : ∀ e ∈ (EditedText.ofEdits source edits).edits, Fits e l.start.offset cs ∧
      e.IsSound source.toList ∧ e.Within l.start.offset (l.start.offset + byteLength (written l.lexemes)) :=
    fun e h => he e (EditedText.mem_ofEdits.1 h)
  have hmakes : Makes source (EditedText.ofEdits source edits).edits l.start.offset cs :=
    ⟨EditedText.inOrder_ofEdits source edits, fun e h => (hmem e h).2.1, fun e h => (hmem e h).1,
      fun e h => EditedText.mem_ofEdits.2 (hsub e h)⟩
  have hsize : source.utf8ByteSize =
      l.start.offset + byteLength (written l.lexemes) + byteLength l.tail := by
    rw [← byteLength_toList, hs, Layout.chars, byteLength_append, byteLength_append, hoffset]
    omega
  have hchars : source.toList = l.mark ++ (written (olds cs) ++ l.tail) := by rw [hs, hc, Layout.chars]
  have hmiddle := hmakes.toList_textFrom hchars hoffset.symm
  rw [hc] at hmiddle
  have hzero : IsBoundary source.toList 0 := isBoundary_zero _
  have hstart : IsBoundary source.toList l.start.offset := ⟨l.mark, _, hchars, hoffset.symm⟩
  have hend : IsBoundary source.toList (l.start.offset + byteLength (written l.lexemes)) :=
    ⟨l.mark ++ written l.lexemes, l.tail, by rw [hs, Layout.chars, List.append_assoc], by
      rw [byteLength_append, hoffset]⟩
  have hbefore : (EditedText.textFrom source l.start.offset 0
      (EditedText.ofEdits source edits).edits).toList = l.mark := by
    rw [EditedText.textFrom_of_not_within fun e h hw => ?_]
    · exact (@toList_slice_of_append _ []) hchars rfl (by simp [hoffset])
    · have h₁ := (hmem e h).2.1.start_lt_stop
      have h₂ := (hmem e h).2.2.1
      have h₃ := hw.2
      omega
  have hafter : (EditedText.textFrom source source.utf8ByteSize
      (l.start.offset + byteLength (written l.lexemes)) (EditedText.ofEdits source edits).edits).toList = l.tail := by
    rw [EditedText.textFrom_of_not_within fun e h hw => ?_]
    · refine (@toList_slice_of_append _ (l.mark ++ written l.lexemes) _ []) ?_ ?_ hsize
      · rw [hs, Layout.chars, List.append_nil, List.append_assoc]
      · rw [byteLength_append, hoffset]
    · have h₁ := (hmem e h).2.1.start_lt_stop
      have h₂ := (hmem e h).2.2.2
      have h₃ := hw.1
      omega
  have htext : (EditedText.ofEdits source edits).apply = EditedText.textFrom source source.utf8ByteSize 0
      (EditedText.ofEdits source edits).edits := rfl
  rw [htext, EditedText.toList_textFrom_append hmakes.inOrder hmakes.sound
    (fun e h => .inr (hmem e h).2.2.1) hzero hstart (Nat.zero_le _) (by omega), hbefore]
  rw [EditedText.toList_textFrom_append hmakes.inOrder hmakes.sound (fun e h => .inl (hmem e h).2.2.2) hstart hend
    (Nat.le_add_right _ _) (by omega), hmiddle, hafter]

/-- The text of a template whose statements and uses are rewritten, whatever the order of the edits. -/
theorem Rewrites.toList_apply {l : Layout} {ss : List Statement} {cs : List Change} {edits : List Edit}
    (h : Rewrites source symbols replace pick 0 [] l.start l.lexemes ss cs) (hs : source.toList = l.chars)
    (he : ∀ e, e ∈ edits ↔ e ∈ editsFrom l.start.offset (useChanges symbols replace [] l.start l.lexemes) ∨
      e ∈ pickedEdits pick 0 ss) :
    (EditedText.ofEdits source edits).apply.toList = l.mark ++ (written (news cs) ++ l.tail) := by
  have hframes := h.frames l.legible.forall_ne_nil
  have hshape : source.toList = l.mark ++ (written l.lexemes ++ l.tail) := hs
  refine toList_apply_changes hs h.olds_eq (fun e hmem => ?_) fun e hmem => ?_
  · have hperm := hframes.perm.mem_iff.1 hmem
    rw [List.mem_append, List.mem_filter] at hperm
    exact (he e).2 (hperm.symm.imp_left (·.1))
  · rcases (he e).1 hmem with hmem | hmem
    · have hfits := hframes.fits e (List.mem_append_right _ hmem)
      obtain ⟨-, h₁, h₂⟩ := fits_of_mem_editsFrom hmem
      rw [olds_useChanges] at h₂
      refine ⟨hfits, (@isSound_of_mem_editsFrom _ _ _ _ l.mark l.tail) ?_ rfl ?_ hmem, h₁, h₂⟩
      · rw [olds_useChanges]
        exact hshape
      · rw [olds_useChanges]
        exact l.legible.forall_ne_nil
    · have hfits := hframes.fits e (List.mem_append_left _ hmem)
      obtain ⟨h₁, -, h₂⟩ := hframes.bounds e hmem
      have hedits := hframes.perm.mem_iff.2 (List.mem_append_left _ hmem)
      refine ⟨hfits, (@isSound_of_mem_editsFrom _ _ _ _ l.mark l.tail) ?_ rfl ?_ hedits, h₁, h₂⟩
      · rw [h.olds_eq]
        exact hshape
      · rw [h.olds_eq]
        exact l.legible.forall_ne_nil

end BicepMigration.Template
