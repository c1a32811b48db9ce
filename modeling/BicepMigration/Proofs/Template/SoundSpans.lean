import BicepMigration.Proofs.Template.FoundUses
import BicepMigration.Proofs.Template.RenderedUse
import BicepMigration.Proofs.Template.StatementTokens
import BicepMigration.Proofs.Text.CheckedSlice
import BicepMigration.Template.EditedText

/-!
# Spans of a template

Every span that reading a template makes is one of its text. The reader stands between characters in each of its
states, also where reading fails later, and a token is the text of its span. Statements, fragments and uses are cut
from one token of the template to another, in their order, so their spans can be sliced too. The same holds of what
stands between edits. Main statements: reading, scanning and splicing take no slice that a text does not have.
-/

namespace BicepMigration.Template

open Text

section Reader

/-- The reader comes to a state while it reads a text. -/
inductive Reached (source : String) : LexState → Prop where
  | initial : Reached source (LexState.initial source.toList)
  | step {s after : LexState} {ts : List Token} : Reached source s → s.step = some (.ok (ts, after)) →
      Reached source after

/-- A step takes characters, and its tokens are parts of them. -/
theorem exists_taken {s after : LexState} {ts : List Token} (h : s.step = some (.ok (ts, after))) :
    ∃ taken, s.rest = taken ++ after.rest ∧ after.here = s.here.advance taken ∧
      ∀ t ∈ ts, ∃ before text later, taken = before ++ (text ++ later) ∧
        t = Token.ofChars t.kind (s.here.advance before) text := by
  unfold LexState.step at h
  split at h
  · next hm =>
    obtain ⟨text, kind, mark, hr, -, -, -, -, hhere, rfl⟩ := stringStep_cases (Option.some.inj h)
    refine ⟨text ++ mark, by rw [hr, List.append_assoc], by rw [hhere, Cursor.advance_append], fun t ht => ?_⟩
    rcases List.mem_append.1 ht with ht | ht
    · unfold textToken at ht
      split at ht
      · cases ht
      · obtain rfl := List.mem_singleton.1 ht
        exact ⟨[], text, mark, rfl, rfl⟩
    · obtain rfl := List.mem_singleton.1 ht
      exact ⟨text, mark, [], by rw [List.append_nil], rfl⟩
  · cases h
  · next c cs hm hr =>
    rw [hr]
    cases codeStep_cases hm (Option.some.inj h) with
    | @pass gap rest hg _ => exact ⟨gap, hg, rfl, by simp⟩
    | @take kind text after ht _ _ hhere _ =>
      refine ⟨text, ht, hhere, fun t hmem => ?_⟩
      obtain rfl := List.mem_singleton.1 hmem
      exact ⟨[], text, [], by simp, rfl⟩

variable {source : String}

/-- The reader stands between the characters that it has read and those that are left. -/
theorem Reached.exists_before {s : LexState} (h : Reached source s) :
    ∃ before, source.toList = before ++ s.rest ∧ byteLength before = s.here.offset := by
  induction h with
  | initial =>
    obtain ⟨mark, rest, hcs, -, -, hinitial⟩ := initial_cases source.toList
    rw [hinitial]
    exact ⟨mark, hcs, rfl⟩
  | @step s after ts _ hstep ih =>
    obtain ⟨before, hbefore, hoffset⟩ := ih
    obtain ⟨taken, hrest, hhere, -⟩ := exists_taken hstep
    refine ⟨before ++ taken, by rw [hbefore, hrest, List.append_assoc], ?_⟩
    rw [byteLength_append, hoffset, hhere, Cursor.advance_offset]

/-- Reading a text takes slices that it has, whether or not reading it fails. -/
structure SoundReading (source : String) : Prop where
  /-- What is left to be read is the text from the place that the reader has reached. -/
  rest : ∀ s, Reached source s →
    slice? source ⟨s.here.offset, source.utf8ByteSize⟩ = some (String.ofList s.rest)
  /-- A token is the text of its span. -/
  tokens : ∀ s ts after, Reached source s → s.step = some (.ok (ts, after)) →
    ∀ t ∈ ts, slice? source t.span = some t.text

/-- Whatever is read starts at a boundary of characters. -/
theorem soundReading (source : String) : SoundReading source where
  rest s hs := by
    obtain ⟨before, hbefore, hoffset⟩ := hs.exists_before
    refine slice?_of_append (by rw [hbefore, List.append_nil]) hoffset.symm ?_
    rw [← byteLength_toList, hbefore, byteLength_append, hoffset]
  tokens s ts after hs hstep t ht := by
    obtain ⟨before, hbefore, hoffset⟩ := hs.exists_before
    obtain ⟨taken, hrest, -, htokens⟩ := exists_taken hstep
    obtain ⟨earlier, text, later, rfl, heq⟩ := htokens t ht
    rw [heq, Token.ofChars_span, Token.ofChars_text]
    refine @slice?_of_append _ (before ++ earlier) _ (later ++ after.rest) _ ?_ ?_ rfl
    · rw [hbefore, hrest]
      simp
    · rw [Cursor.advance_offset, byteLength_append, hoffset]

end Reader

section Cuts

variable {source : String} {toks : List Token} {span : Span}

/-- The span goes from the start of one token to the stop of another, or of the same one. -/
def Cuts (toks : List Token) (span : Span) : Prop :=
  ∃ (i j : Nat) (first last : Token), i ≤ j ∧ toks[i]? = some first ∧ toks[j]? = some last ∧
    span = ⟨first.span.start, last.span.stop⟩

/-- Tokens of which each is the text of its span, in the order in which they start. -/
structure InText (source : String) (toks : List Token) : Prop where
  text : ∀ t ∈ toks, slice? source t.span = some t.text
  ordered : toks.Pairwise fun a b => a.span.start < b.span.start

/-- What is cut from tokens of a text is a span of it. -/
theorem InText.isSpan (h : InText source toks) (hc : Cuts toks span) : IsSpan source span := by
  obtain ⟨i, j, first, last, hij, hfirst, hlast, rfl⟩ := hc
  have hf := isSpan_of_slice? (h.text first (List.mem_of_getElem? hfirst))
  have hl := isSpan_of_slice? (h.text last (List.mem_of_getElem? hlast))
  refine isSpan_of_boundaries hf.start_boundary hl.stop_boundary ?_
  rcases Nat.lt_or_eq_of_le hij with hlt | rfl
  · obtain ⟨hi, rfl⟩ := List.getElem?_eq_some_iff.1 hfirst
    obtain ⟨hj, rfl⟩ := List.getElem?_eq_some_iff.1 hlast
    have hstart := List.pairwise_iff_getElem.1 h.ordered i j hi hj hlt
    exact Nat.le_trans (Nat.le_of_lt hstart) hl.start_le
  · obtain rfl : first = last := Option.some.inj (hfirst.symm.trans hlast)
    exact hf.start_le

/-- Tokens that follow each other are cut from the first one to the last one. -/
theorem cuts_of_append {before others after : List Token} {first : Token}
    (h : toks = before ++ first :: (others ++ after)) :
    Cuts toks ⟨first.span.start, (others.getLast?.getD first).span.stop⟩ := by
  refine ⟨before.length, before.length + others.length, first, others.getLast?.getD first, Nat.le_add_right .., ?_, ?_,
    rfl⟩
  · rw [h, List.getElem?_append_right (Nat.le_refl _), Nat.sub_self]
    rfl
  · have hlast : (first :: others)[others.length]? = some (others.getLast?.getD first) := by
      rw [← List.getLast?_cons, List.getLast?_eq_getElem?]
      rfl
    rw [h, List.getElem?_append_right (Nat.le_add_right ..), Nat.add_sub_cancel_left, ← List.cons_append,
      List.getElem?_append_left (by simp), hlast]

/-- The tokens of lexemes that stand in a text are in it. -/
theorem inText_tokensAt {here : Cursor} {ls : List Lexeme} (h : Placed source here ls)
    (ht : ∀ l ∈ ls, l.text ≠ []) : InText source (tokensAt here ls) where
  text t hmem := by
    obtain ⟨a, b, hab⟩ := List.append_of_mem hmem
    obtain ⟨x, y, rfl, -, hy⟩ := tokensAt_eq_append hab
    obtain ⟨l, rest, rfl, rfl, -⟩ := tokensAt_eq_cons hy.symm
    obtain ⟨before, after, hsource, hbefore⟩ := h.right
    refine @slice?_of_append _ (before ++ l.gap) _ (written rest ++ after) _ ?_ ?_ rfl
    · rw [hsource, written_cons]
      simp
    · rw [Token.ofChars_span, Cursor.advance_offset, byteLength_append, hbefore]
  ordered := (pairwise_start_tokensAt ht here).1

end Cuts

section Fragments

/-- The fragments of a value, at any depth. -/
def Value.fragments : Value → List Fragment
  | .string f | .interpolated f | .expression f => [f]
  | .object entries => entriesFragments entries
  | .array items => itemsFragments items
  | .number _ | .bool _ | .null => []
where
  /-- The fragments in the values of properties. -/
  entriesFragments : List (Property Value) → List Fragment
    | [] => []
    | ⟨_, _, value, _⟩ :: rest => value.fragments ++ entriesFragments rest
  /-- The fragments in elements. -/
  itemsFragments : List Value → List Fragment
    | [] => []
    | item :: rest => item.fragments ++ itemsFragments rest

/-- The fragments of a statement: its decorators, its condition, and what its body holds. -/
def Statement.fragments (s : Statement) : List Fragment :=
  s.decorators ++ s.condition.toList ++ (s.body.map fun body => (Value.object body).fragments).getD []

section

variable {f : Fragment}

/-- The fragments of properties are those of their values. -/
theorem mem_entriesFragments {ps : List (Property Value)} :
    f ∈ Value.fragments.entriesFragments ps ↔ ∃ p ∈ ps, f ∈ p.value.fragments := by
  induction ps with
  | nil => simp [Value.fragments.entriesFragments]
  | cons p ps ih => simp [Value.fragments.entriesFragments, ih]

/-- The fragments of elements are theirs. -/
theorem mem_itemsFragments {vs : List Value} :
    f ∈ Value.fragments.itemsFragments vs ↔ ∃ v ∈ vs, f ∈ v.fragments := by
  induction vs with
  | nil => simp [Value.fragments.itemsFragments]
  | cons v vs ih => simp [Value.fragments.itemsFragments, ih]

mutual

/-- Every fragment of a value is one of a leaf. -/
theorem any_of_mem_fragments (side : Side) : (v : Value) → f ∈ v.fragments →
    v.Any (fun _ w => f ∈ w.fragments) side
  | .string _, h | .interpolated _, h | .expression _, h => .scalar rfl h
  | .number _, h | .bool _, h | .null, h => by cases h
  | .object entries, h => by
    obtain ⟨p, hp, hf⟩ := any_of_mem_entriesFragments entries h
    exact .entry hp hf
  | .array items, h => by
    obtain ⟨v, hv, hf⟩ := any_of_mem_itemsFragments items h
    exact .item hv hf

theorem any_of_mem_entriesFragments : (ps : List (Property Value)) → f ∈ Value.fragments.entriesFragments ps →
    ∃ p ∈ ps, p.value.Any (fun _ w => f ∈ w.fragments) .other
  | [], h => by cases h
  | ⟨key, quoted, value, line⟩ :: rest, h => by
    rcases List.mem_append.1 h with h | h
    · exact ⟨_, List.mem_cons_self, any_of_mem_fragments .other value h⟩
    · obtain ⟨p, hp, hf⟩ := any_of_mem_entriesFragments rest h
      exact ⟨p, List.mem_cons_of_mem _ hp, hf⟩

theorem any_of_mem_itemsFragments : (vs : List Value) → f ∈ Value.fragments.itemsFragments vs →
    ∃ v ∈ vs, v.Any (fun _ w => f ∈ w.fragments) .key
  | [], h => by cases h
  | item :: rest, h => by
    rcases List.mem_append.1 h with h | h
    · exact ⟨item, List.mem_cons_self, any_of_mem_fragments .key item h⟩
    · obtain ⟨v, hv, hf⟩ := any_of_mem_itemsFragments rest h
      exact ⟨v, List.mem_cons_of_mem _ hv, hf⟩

end

/-- The fragments of a value are those of the scalars in it. -/
theorem mem_fragments_iff {v : Value} (side : Side) :
    f ∈ v.fragments ↔ v.Any (fun _ w => f ∈ w.fragments) side := by
  refine ⟨any_of_mem_fragments side v, fun h => ?_⟩
  induction h with
  | scalar _ hf => exact hf
  | entry hp _ ih => exact mem_entriesFragments.2 ⟨_, hp, ih⟩
  | item hv _ ih => exact mem_itemsFragments.2 ⟨_, hv, ih⟩

end

/-- Where all scalars have a property and some scalar has another one, one of them has both. -/
theorem Value.Any.exists_of_every {leaf : Side → Value → Prop} {leaf' : Value → Prop} {side : Side} {v : Value}
    (h : v.Any leaf side) (he : v.Every leaf') : ∃ side w, w.isScalar = true ∧ leaf side w ∧ leaf' w := by
  induction h with
  | scalar hv hl =>
    cases he with
    | scalar _ hl' => exact ⟨_, _, hv, hl, hl'⟩
    | object | array => cases hv
  | entry hp _ ih =>
    cases he with
    | scalar hv => cases hv
    | object _ hvalues => exact ih (hvalues _ hp)
  | item hm _ ih =>
    cases he with
    | scalar hv => cases hv
    | array hitems => exact ih (hitems _ hm)

variable {source : String} {toks : List Token}

/-- A fragment is the text of its span, which is cut from tokens. -/
def IsCutFrom (source : String) (toks : List Token) (f : Fragment) : Prop :=
  ∃ span, f.span = some span ∧ Cuts toks span ∧ slice? source span = some f.raw

/-- A fragment of tokens in a text is cut from it. -/
theorem IsCut.isCutFrom {form : List TokenKind → Prop} {f : Fragment} (h : IsCut source toks form f)
    (ht : InText source toks) : IsCutFrom source toks f := by
  obtain ⟨first, others, rfl, ⟨before, after, hall, -, -⟩, -⟩ := h
  have hcuts := cuts_of_append hall
  exact ⟨_, rfl, hcuts, (ht.isSpan hcuts).slice?_eq⟩

/-- The fragments of a scalar that is read from tokens are cut from them. -/
theorem isCutFrom_of_isRead {v : Value} {f : Fragment} (hv : v.isScalar = true) (h : IsRead source toks v)
    (ht : InText source toks) (hf : f ∈ v.fragments) : IsCutFrom source toks f := by
  have hholds := h.holds hv
  cases hholds with
  | string hc | interpolated hc | expression hc =>
    obtain rfl := List.mem_singleton.1 hf
    exact hc.isCutFrom ht
  | number | bool | null => cases hf
  | object | array => cases hv

/-- All fragments of a statement are cut from its text. -/
theorem isCutFrom_of_mem_fragments {s : Statement} (h : StatementHolds source toks s) (ht : InText source toks)
    {f : Fragment} (hf : f ∈ s.fragments) : IsCutFrom source toks f := by
  unfold Statement.fragments at hf
  rw [List.mem_append, List.mem_append] at hf
  rcases hf with (hf | hf) | hf
  · exact (h.decorators f hf).isCutFrom ht
  · exact (h.condition f (Option.mem_toList.1 hf)).isCutFrom ht
  · cases hb : s.body with
    | none =>
      rw [hb] at hf
      cases hf
    | some body =>
      rw [hb] at hf
      obtain ⟨side, w, hw, hmem, hread⟩ := ((mem_fragments_iff .other).1 hf).exists_of_every (h.body body hb)
      exact isCutFrom_of_isRead hw hread ht hmem

end Fragments

section Scanned

/-- Every use of a symbol is cut from its first token to its last member. -/
theorem cuts_of_mem_findUses {symbols : List String} {toks : List Token} {use : SymbolUse}
    (h : use ∈ findUses symbols toks) : Cuts toks use.span := by
  obtain ⟨places, -, -, hfound⟩ := exists_places symbols [] toks
  have hall : List.Forall₂ (FoundAt symbols toks) places (findUses symbols toks) := hfound
  obtain ⟨i, hi, hget⟩ := List.mem_iff_getElem.1 h
  have hlt : i < places.length := by
    rw [hall.length_eq]
    exact hi
  obtain ⟨t, chain, rest, ht, hdrop, -, -, -, hspan, -⟩ := (hall.get hlt hi).describes
  simp only [List.get_eq_getElem, hget] at ht hdrop hspan
  obtain ⟨htoks, rfl⟩ := List.getElem?_eq_some_iff.1 ht
  rw [hspan]
  have hparts : toks = toks.take places[i] ++ toks[places[i]] :: (chain ++ rest) := by
    rw [← hdrop, ← List.drop_eq_getElem_cons htoks, List.take_append_drop]
  exact cuts_of_append hparts

variable {source : String}

/-- Scanning a template takes slices that its text has: of its tokens, its statements and their fragments, and of the
uses of any symbols in it. -/
structure SoundScan (template : ScannedTemplate) : Prop where
  /-- Each token is the text of its span, and tokens come in order. -/
  tokens : InText template.source template.tokens
  /-- What is cut from its tokens is a span of the text. -/
  spans : ∀ span, Cuts template.tokens span → IsSpan template.source span
  /-- Statements are cut from its tokens. -/
  statements : ∀ s ∈ template.statements, Cuts template.tokens s.span
  /-- Fragments are cut from its tokens, and each is the text of its span. -/
  fragments : ∀ s ∈ template.statements, ∀ f ∈ s.fragments, IsCutFrom template.source template.tokens f
  /-- Uses are cut from its tokens. -/
  uses : ∀ symbols, ∀ use ∈ findUses symbols template.tokens, Cuts template.tokens use.span

/-- What a scan says of a template has its spans at boundaries of characters. -/
theorem soundScan {template : ScannedTemplate} (h : scan source = .ok template) : SoundScan template := by
  obtain ⟨l, hl, rfl⟩ := scan_eq_ok_iff.1 h
  have htokens : InText source l.tokens := inText_tokensAt (l.placed hl) l.legible.forall_ne_nil
  refine ⟨htokens, fun span hc => htokens.isSpan hc, fun s hs => ?_, fun s hs f hf => ?_,
    fun symbols use huse => cuts_of_mem_findUses huse⟩
  · obtain ⟨before, first, body, after, heq, hrun⟩ := l.exists_isRun hs
    rw [hrun.span]
    exact cuts_of_append heq
  · exact isCutFrom_of_mem_fragments (statementHolds_of_scan h s hs) htokens hf

end Scanned

namespace EditedText

/-- The text from an offset to a later one with edits, put together from slices. Nothing if one of them cannot be
taken. -/
def textFrom? (source : String) (stop : Nat) : Nat → List Edit → Option String
  | cursor, [] => slice? source ⟨cursor, stop⟩
  | cursor, e :: rest =>
    if e.span.start < cursor || stop < e.span.stop then textFrom? source stop cursor rest
    else
      (slice? source ⟨cursor, e.span.start⟩).bind fun before =>
        (textFrom? source stop e.span.stop rest).map fun after => before ++ e.replacement ++ after

/-- The text of a span with the edits inside it. Nothing if a slice cannot be taken. -/
def text? (edited : EditedText) (span : Span) : Option String :=
  textFrom? edited.source span.stop span.start edited.edits

/-- The whole text with all edits. Nothing if a slice cannot be taken. -/
def applied? (edited : EditedText) : Option String := edited.text? ⟨0, edited.source.utf8ByteSize⟩

/-- The text of a fragment with the edits inside it. Nothing if a slice cannot be taken. -/
def fragment? (edited : EditedText) (f : Fragment) : Option String :=
  match f.span with
  | some span => edited.text? span
  | none => some f.raw

/-- Between edits of spans of a text all slices can be taken, in whatever order the edits come. -/
theorem textFrom?_eq {source : String} {stop cursor : Nat} {edits : List Edit}
    (he : ∀ e ∈ edits, IsSpan source e.span) (hs : IsSpan source ⟨cursor, stop⟩) :
    textFrom? source stop cursor edits = some (textFrom source stop cursor edits) := by
  induction edits generalizing cursor with
  | nil => exact hs.slice?_eq
  | cons e rest ih =>
    obtain ⟨hspan, hrest⟩ := List.forall_mem_cons.1 he
    unfold textFrom? textFrom
    split
    · exact ih hrest hs
    · next hin =>
      simp only [Bool.or_eq_true, decide_eq_true_eq, not_or, Nat.not_lt] at hin
      have hbefore := isSpan_of_boundaries hs.start_boundary hspan.start_boundary hin.1
      have hafter := isSpan_of_boundaries hspan.stop_boundary hs.stop_boundary hin.2
      rw [hbefore.slice?_eq, Option.bind_some, ih hrest hafter, Option.map_some]

variable {edited : EditedText}

/-- A sound span of a text with sound edits can be cut. -/
theorem text?_eq (he : ∀ e ∈ edited.edits, IsSpan edited.source e.span) {span : Span}
    (hs : IsSpan edited.source span) : edited.text? span = some (edited.text span) :=
  textFrom?_eq he hs

/-- A text with sound edits can be put together. -/
theorem applied?_eq (he : ∀ e ∈ edited.edits, IsSpan edited.source e.span) : edited.applied? = some edited.apply :=
  text?_eq he (isSpan_whole _)

/-- A fragment of a text with sound edits can be written. -/
theorem fragment?_eq (he : ∀ e ∈ edited.edits, IsSpan edited.source e.span) {f : Fragment}
    (hf : ∀ span, f.span = some span → IsSpan edited.source span) :
    edited.fragment? f = some (edited.fragment f) := by
  unfold fragment? fragment
  cases h : f.span with
  | none => rfl
  | some span => exact text?_eq he (hf span h)

end EditedText

end BicepMigration.Template
