import BicepMigration.Proofs.Template.Layout
import BicepMigration.Proofs.Template.LexemeText
import BicepMigration.Proofs.Text.CarriageReturns

/-!
# Tokens of lines that end with carriage returns

A carriage return before a newline is white space, or it belongs to the comment or the string of many lines that the
newline stands in. Whatever the reader does with a text, it does with the text with carriage returns too: it takes the
same lexeme or finds the same fault, and stands at the same place again. Only before a newline does it make a stop of
its own, after the carriage return. Main statement: both texts have the same tokens, apart from their places in bytes, the
columns of newlines and the text of strings of many lines, or they have the same fault at the same place.
-/

namespace BicepMigration.Template

open Text

section Splitting

/-- The mark has no part of a line end. -/
def KeepsLine (mark : List Char) : Prop := ∀ c ∈ mark, c ≠ '\r' ∧ c ≠ '\n'

variable {mark : List Char}

/-- A mark that keeps the line stays as it is. -/
theorem KeepsLine.withReturns_append (h : KeepsLine mark) (cs : List Char) :
    withReturns (mark ++ cs) = mark ++ withReturns cs := by
  rw [Text.withReturns_append, withReturns_of_not_mem fun hn => (h _ hn).2 rfl]

/-- A mark is seen at the start of a text if it is seen at the start of the text with carriage returns. -/
theorem KeepsLine.isPrefixOf_withReturns (h : KeepsLine mark) (cs : List Char) :
    mark.isPrefixOf (withReturns cs) = mark.isPrefixOf cs := by
  induction mark generalizing cs with
  | nil => cases cs <;> simp
  | cons d mark ih =>
    obtain ⟨hr, hn⟩ := h d List.mem_cons_self
    cases cs with
    | nil => rfl
    | cons c cs =>
      by_cases hc : c = '\n'
      · subst hc
        rw [withReturns_newline, List.isPrefixOf, List.isPrefixOf, beq_eq_false_iff_ne.2 hr, beq_eq_false_iff_ne.2 hn]
        rfl
      · rw [withReturns_cons hc, List.isPrefixOf, List.isPrefixOf, ih (fun c hc => h c (List.mem_cons_of_mem _ hc))]

/-- A mark occurs first at the same place. -/
theorem KeepsLine.throughFirst_withReturns (h : KeepsLine mark) (hne : mark ≠ []) (cs : List Char) :
    throughFirst mark (withReturns cs) = (throughFirst mark cs).map (Prod.map withReturns withReturns) := by
  obtain ⟨d, more, rfl⟩ := List.exists_cons_of_ne_nil hne
  obtain ⟨hr, hn⟩ := h d List.mem_cons_self
  have hskip {c : Char} (hd : d ≠ c) (cs : List Char) :
      throughFirst (d :: more) (c :: cs) = (throughFirst (d :: more) cs).map (Prod.map (c :: ·) id) := by
    rw [throughFirst, if_neg (by simp [List.isPrefixOf, hd])]
    rfl
  induction cs with
  | nil => simp [throughFirst]
  | cons c cs ih =>
    by_cases hc : c = '\n'
    · subst hc
      rw [withReturns_newline, hskip hr, hskip hn, hskip hn, ih, Option.map_map, Option.map_map, Option.map_map]
      rfl
    · have hstart := h.isPrefixOf_withReturns (c :: cs)
      rw [withReturns_cons hc] at hstart ⊢
      rw [throughFirst, throughFirst, hstart]
      split
      · next hp =>
        obtain ⟨rest, hrest⟩ := List.isPrefixOf_iff_prefix.1 hp
        have hreturns := congrArg withReturns hrest
        rw [h.withReturns_append, withReturns_cons hc] at hreturns
        have hmark : withReturns (d :: more) = d :: more := withReturns_of_not_mem fun hn => (h _ hn).2 rfl
        rw [← hrest, ← hreturns, List.drop_left, List.drop_left, Option.map_some, Prod.map_apply, hmark]
      · rw [ih, Option.map_map, Option.map_map]
        simp [Function.comp_def, withReturns_cons hc]

/-- A number goes on to the same place. -/
theorem splitNumber_withReturns (cs : List Char) :
    splitNumber (withReturns cs) = (splitNumber cs).map withReturns withReturns := by
  have hdigits : '\n' ∉ (splitNumber cs).1 := by
    intro hn
    rcases isDigit_or_point_of_mem hn with h | h <;> cases h
  have hends : splitNumber (withReturns (splitNumber cs).2) = ([], withReturns (splitNumber cs).2) := by
    have hself := splitNumber_eq_nil_iff.1 (splitNumber_self cs).2
    refine splitNumber_eq_nil_iff.2 ?_
    generalize (splitNumber cs).2 = rest at hself ⊢
    rcases rest with _ | ⟨c, rest⟩
    · simp
    · by_cases hc : c = '\n'
      · subst hc
        rintro d hd
        obtain rfl : '\r' = d := Option.some.inj hd
        exact ⟨rfl, fun h => absurd h (by decide)⟩
      · obtain ⟨hdigit, hpoint⟩ := hself c rfl
        rw [withReturns_cons hc]
        rintro d hd
        obtain rfl : c = d := Option.some.inj hd
        refine ⟨hdigit, fun hdot e he => ?_⟩
        by_contra hdigit'
        have hne (m : Char) (hm : m.isDigit = false) : e ≠ m := fun h => hdigit' (h ▸ hm)
        exact hdigit' (hpoint hdot e ((head?_withReturns (hne _ rfl) (hne _ rfl) rest).1 he))
  have hparts := congrArg withReturns (splitNumber_append cs)
  rw [Text.withReturns_append, withReturns_of_not_mem hdigits] at hparts
  rw [← hparts, splitNumber_append_right (splitNumber_self cs).1 hends, Prod.map, withReturns_of_not_mem hdigits]

/-- The text of a string goes on to the same place, or the string is open at the end of the same line. -/
theorem splitString_withReturns (cs : List Char) :
    splitString (withReturns cs) = (splitString cs).map (Prod.map withReturns withReturns) := by
  have hline (cs : List Char) : splitString ('\n' :: cs) = none := by cases cs <;> simp [splitString]
  have hreturn (cs : List Char) : splitString ('\r' :: '\n' :: cs) = none := by
    rw [splitString, hline]
    simp
  fun_induction splitString cs with
  | case1 => rfl
  | case2 => rfl
  | case3 c hc =>
    by_cases hn : c = '\n'
    · subst hn
      exact hreturn []
    · rw [withReturns_cons hn]
      simp [splitString, hc]
  | case4 c d cs h =>
    have hc : c ≠ '\n' := by
      rintro rfl
      simp at h
    rw [Option.map_some, Prod.map_apply, withReturns_nil, withReturns_cons hc]
    simp only [Bool.or_eq_true, Bool.and_eq_true, decide_eq_true_eq] at h
    refine splitString_of_endsText ?_
    rcases h with rfl | ⟨rfl, rfl⟩
    · exact .inl rfl
    · exact .inr ⟨withReturns cs, by rw [withReturns_cons (by decide) cs]⟩
  | case5 d cs => exact hreturn _
  | case6 cs h =>
    rw [withReturns_cons h, withReturns_newline, splitString, hline]
    simp
  | case7 d cs hd hstop hc ih =>
    rw [withReturns_cons hc, withReturns_cons hd, splitString, if_neg hstop, if_neg hc, if_pos rfl, if_neg hd, ih,
      Option.map_map, Option.map_map]
    simp [Function.comp_def, withReturns_cons hc, withReturns_cons hd]
  | case8 c d cs hstop hc hescape ih =>
    obtain ⟨e, rest, hrest⟩ := List.exists_cons_of_ne_nil (mt withReturns_eq_nil_iff.1 (List.cons_ne_nil d cs))
    have hbrace : ¬ (c = '\'' || (c = '$' && e = '{')) = true := by
      have hhead := @head?_withReturns '{' (by decide) (by decide) (d :: cs)
      rw [hrest] at hhead
      simp only [List.head?_cons, Option.some.injEq] at hhead
      simpa only [hhead] using hstop
    rw [withReturns_cons hc, hrest, splitString, if_neg hbrace, if_neg hc, if_neg hescape, ← hrest, ih,
      Option.map_map, Option.map_map]
    simp [Function.comp_def, withReturns_cons hc]

/-- Where a mark ends is not changed by a line end after it. -/
theorem markAt_withReturns (c : Char) (cs : List Char) : markAt c (withReturns cs).head? = markAt c cs.head? := by
  cases cs with
  | nil => rfl
  | cons d cs =>
    by_cases hd : d = '\n'
    · subst hd
      obtain ⟨kind, -, hnone, -⟩ := markAt_cases c none
      exact (markAt_of_isStop (by decide) hnone).trans (markAt_of_isStop (by decide) hnone).symm
    · rw [withReturns_cons hd]
      rfl

end Splitting

section Steps

variable {source : String} {s : LexState}

/-- The token in the text with carriage returns. A newline comes after the carriage return before it, and a string of
many lines has its lines end with carriage returns. -/
def Token.returned (source : String) (t : Token) : Token :=
  if t.kind = .newline then
    { t with span := ⟨returnedPlace source t.span.start + 1, returnedPlace source t.span.stop⟩, column := t.column + 1 }
  else
    { t with
      text := if t.kind = .multilineString then Text.returned t.text else t.text
      span := t.span.returned source }

/-- The reader at the same place of the text with carriage returns. -/
def LexState.returned (source : String) (s : LexState) : LexState :=
  { s with here := s.here.returned source, rest := withReturns s.rest }

/-- What a step gives, in the text with carriage returns. -/
def returnedStep (source : String) : List Token × LexState → List Token × LexState :=
  Prod.map (List.map (Token.returned source)) (LexState.returned source)

/-- The reader stands at a place of the text, and what is left is the text from there on. -/
def LexState.Stands (source : String) (s : LexState) : Prop :=
  ∃ before, source.toList = before ++ s.rest ∧ s.here.offset = byteLength before

/-- After a text is passed over the state stands behind it. -/
theorem LexState.Stands.skip {text rest : List Char} (h : s.Stands source) (hr : s.rest = text ++ rest) :
    (s.skip text rest).Stands source := by
  obtain ⟨before, hsource, hhere⟩ := h
  refine ⟨before ++ text, by rw [hsource, hr, List.append_assoc]; rfl, ?_⟩
  rw [LexState.skip, Cursor.advance_offset, hhere, byteLength_append]

/-- Passing over characters comes to the same place again. -/
theorem LexState.Stands.skip_returned {text rest : List Char} (h : s.Stands source) (hr : s.rest = text ++ rest) :
    (s.returned source).skip (withReturns text) (withReturns rest) = (s.skip text rest).returned source := by
  obtain ⟨before, hsource, hhere⟩ := h
  have hadvance := Cursor.advance_returned (hr ▸ hsource) hhere
  unfold LexState.skip LexState.returned
  rw [hadvance]

/-- A token is taken at the same place. -/
theorem LexState.Stands.ofChars_returned {text rest : List Char} (h : s.Stands source) (hr : s.rest = text ++ rest)
    {kind : TokenKind} (hk : kind ≠ .newline) (ht : kind ≠ .multilineString → '\n' ∉ text) :
    Token.ofChars kind (s.here.returned source) (withReturns text) =
      (Token.ofChars kind s.here text).returned source := by
  have hstop := congrArg (·.here.offset) (h.skip_returned hr)
  simp only [LexState.skip, LexState.returned, Cursor.advance_offset] at hstop
  have hspan : (⟨(s.here.returned source).offset,
        (s.here.returned source).offset + byteLength (withReturns text)⟩ : Span) =
      Span.returned source ⟨s.here.offset, s.here.offset + byteLength text⟩ := by
    rw [hstop, Cursor.returned_offset, Cursor.returned_offset, Cursor.advance_offset]
    rfl
  have htext : String.ofList (withReturns text) =
      if kind = .multilineString then Text.returned (String.ofList text) else String.ofList text := by
    split
    · rw [Text.returned, String.toList_ofList]
    · next hm => rw [withReturns_of_not_mem (ht hm)]
  rw [Token.returned, if_neg (show (Token.ofChars kind s.here text).kind ≠ .newline from hk), Token.ofChars, hspan, htext]
  rfl

/-- What no line end belongs to is taken as it is. -/
theorem LexState.Stands.taken_returned {text rest : List Char} (h : s.Stands source) (hr : s.rest = text ++ rest)
    {kind : TokenKind} (hk : kind ≠ .newline) (ht : '\n' ∉ text) :
    Token.ofChars kind (s.here.returned source) text = (Token.ofChars kind s.here text).returned source ∧
      (s.here.returned source).advance text = (s.here.advance text).returned source := by
  have htoken := h.ofChars_returned hr hk fun _ => ht
  have hskip := congrArg LexState.here (h.skip_returned hr)
  rw [withReturns_of_not_mem ht] at htoken hskip
  exact ⟨htoken, hskip⟩

/-- The text of a string is taken as it is. -/
theorem LexState.Stands.textToken_returned {text rest : List Char} (h : s.Stands source) (hr : s.rest = text ++ rest)
    (ht : '\n' ∉ text) :
    textToken (s.here.returned source) text = (textToken s.here text).map (Token.returned source) := by
  unfold textToken
  rw [(h.taken_returned hr (by decide) ht).1]
  split <;> rfl

/-- Inside a string the same text is read with the mark after it, or the string is open. -/
theorem LexState.Stands.step_string_returned (h : s.Stands source) (hm : s.mode = .string) :
    (s.returned source).step = s.step.map (Except.map (returnedStep source)) := by
  have hsplit : splitString (s.returned source).rest = (splitString s.rest).map (Prod.map withReturns withReturns) :=
    splitString_withReturns s.rest
  have hm' : (s.returned source).mode = .string := hm
  cases hs : splitString s.rest with
  | none =>
    rw [hs] at hsplit
    simp only [LexState.step, hm', hm, stringStep, hsplit, hs]
    rfl
  | some parts =>
    obtain ⟨text, rest⟩ := parts
    have hr := (splitString_append hs).symm
    have htext := newline_not_mem_of_splitString hs
    have htoken := h.textToken_returned hr htext
    have hadvance := (h.taken_returned hr (show TokenKind.stringText ≠ .newline by decide) htext).2
    rw [hs, Option.map_some, Prod.map_apply, withReturns_of_not_mem htext] at hsplit
    rcases (splitString_self hs).2 with hquote | ⟨after, rfl⟩
    · obtain ⟨after, rfl⟩ := List.head?_eq_some_iff.1 hquote
      obtain ⟨hmark, hafter⟩ := (h.skip hr).taken_returned (show '\'' :: after = ['\''] ++ after from rfl)
        (show TokenKind.stringEnd ≠ .newline by decide) (by decide)
      rw [step_stringEnd hm hs, step_stringEnd hm' (hsplit.trans (by rw [withReturns_cons (by decide)]))]
      simp only [LexState.returned, LexState.skip] at hmark hafter ⊢
      rw [htoken, hadvance, hmark, hafter]
      simp [returnedStep, Except.map, LexState.returned]
    · obtain ⟨hmark, hafter⟩ := (h.skip hr).taken_returned (show '$' :: '{' :: after = ['$', '{'] ++ after from rfl)
        (show TokenKind.holeStart ≠ .newline by decide) (by decide)
      rw [step_hole hm hs,
        step_hole hm' (hsplit.trans (by rw [withReturns_cons (by decide), withReturns_cons (by decide)]))]
      simp only [LexState.returned, LexState.skip] at hmark hafter ⊢
      rw [htoken, hadvance, hmark, hafter]
      simp [returnedStep, Except.map, LexState.returned, Cursor.returned, Cursor.moved]

/-- A token is taken, and what is left is the same. -/
theorem LexState.Stands.emit_returned {text rest : List Char} (h : s.Stands source) (hr : s.rest = text ++ rest)
    {kind : TokenKind} (hk : kind ≠ .newline) (ht : kind ≠ .multilineString → '\n' ∉ text) :
    (s.returned source).emit kind (withReturns text) (withReturns rest) =
      returnedStep source (s.emit kind text rest) := by
  have htoken := h.ofChars_returned hr hk ht
  have hskip := h.skip_returned hr
  unfold LexState.emit returnedStep
  rw [hskip, LexState.returned, htoken]
  rfl

/-- A token of one character is taken, whatever becomes of the mode and of the brackets. -/
theorem LexState.Stands.emit_one_returned (h : s.Stands source) {c : Char} {cs : List Char} (hr : s.rest = c :: cs)
    (hc : c ≠ '\n') (mode : LexMode) (opened : List OpenBracket) {kind : TokenKind} (hk : kind ≠ .newline) :
    LexState.emit { s.returned source with mode := mode, opened := opened } kind [c] (withReturns cs) =
      returnedStep source (LexState.emit { s with mode := mode, opened := opened } kind [c] cs) := by
  have hc' : '\n' ∉ [c] := by simpa using Ne.symm hc
  have htaken := LexState.Stands.emit_returned (s := { s with mode := mode, opened := opened }) h
    (show s.rest = [c] ++ cs from hr) hk fun _ => hc'
  rw [withReturns_of_not_mem hc'] at htaken
  exact htaken

/-- The kind of a mark is not that of a newline. -/
theorem ne_newline_of_isSpelled {kind : TokenKind} {c : Char} (h : IsSpelled kind [c]) (hc : c ≠ '\n') :
    kind ≠ .newline := by
  rintro rfl
  exact hc (List.singleton_inj.1 h)

/-- A mark of one character or two is taken. -/
theorem LexState.Stands.mark_returned (h : s.Stands source) {c : Char} {cs : List Char} (hr : s.rest = c :: cs)
    (hc : c ≠ '\n') :
    (s.returned source).emit (markAt c cs.head?).1 (c :: (withReturns cs).take ((markAt c cs.head?).2 - 1))
        ((withReturns cs).drop ((markAt c cs.head?).2 - 1)) =
      returnedStep source (s.emit (markAt c cs.head?).1 (c :: cs.take ((markAt c cs.head?).2 - 1))
        (cs.drop ((markAt c cs.head?).2 - 1))) := by
  obtain ⟨kind, hkind, -, hmark | ⟨hmark, d, hd, hhead⟩⟩ := markAt_cases c cs.head?
  · rw [hmark]
    refine h.emit_one_returned hr hc s.mode s.opened ?_
    rintro rfl
    exact absurd hkind (by decide)
  · obtain ⟨rest, rfl⟩ := List.head?_eq_some_iff.1 hhead
    have hd' : d ≠ '\n' := by
      rintro rfl
      exact absurd hd (by decide)
    have htext : '\n' ∉ [c, d] := by simpa using ⟨Ne.symm hc, Ne.symm hd'⟩
    have htaken := h.emit_returned (show s.rest = [c, d] ++ rest from hr) (show TokenKind.operator ≠ .newline by decide)
      fun _ => htext
    rw [withReturns_of_not_mem htext] at htaken
    rw [hmark, withReturns_cons hd']
    exact htaken

/-- A number is taken. -/
theorem LexState.Stands.number_returned (h : s.Stands source) {c : Char} {cs : List Char} (hr : s.rest = c :: cs)
    (hc : c ≠ '\n') :
    (s.returned source).emit .number (c :: withReturns (splitNumber cs).1) (withReturns (splitNumber cs).2) =
      returnedStep source (s.emit .number (c :: (splitNumber cs).1) (splitNumber cs).2) := by
  have hdigits : '\n' ∉ c :: (splitNumber cs).1 := by
    intro hn
    rcases List.mem_cons.1 hn with rfl | hn
    · exact hc rfl
    · rcases isDigit_or_point_of_mem hn with h | h <;> cases h
  rw [← withReturns_cons hc]
  exact h.emit_returned (by rw [hr, List.cons_append, splitNumber_append]) (by decide) fun _ => hdigits

/-- A name is taken. -/
theorem LexState.Stands.name_returned (h : s.Stands source) {c : Char} {cs : List Char} (hr : s.rest = c :: cs)
    (hc : c ≠ '\n') :
    (s.returned source).emit .identifier (c :: (withReturns cs).takeWhile isNamePart)
        ((withReturns cs).dropWhile isNamePart) =
      returnedStep source (s.emit .identifier (c :: cs.takeWhile isNamePart) (cs.dropWhile isNamePart)) := by
  have hname : '\n' ∉ c :: cs.takeWhile isNamePart := by
    intro hn
    rcases List.mem_cons.1 hn with rfl | hn
    · exact hc rfl
    · exact absurd (of_mem_takeWhile hn) (by decide)
  obtain ⟨htake, hdrop⟩ := @span_withReturns isNamePart (by decide) (by decide) cs
  rw [htake, hdrop, ← withReturns_cons hc]
  exact h.emit_returned (by rw [hr, List.cons_append, List.takeWhile_append_dropWhile]) (by decide) fun _ => hname

/-- A comment up to the mark that ends it is passed over, or it is open. -/
theorem LexState.Stands.blockComment_returned (h : s.Stands source) {cs : List Char} (hr : s.rest = '/' :: cs)
    (hstar : cs.head? = some '*') :
    (match throughFirst ['*', '/'] (withReturns cs).tail with
      | none => (s.returned source).fail .openComment
      | some (text, rest) => .ok ([], (s.returned source).skip ('/' :: '*' :: text) rest)) =
    (match throughFirst ['*', '/'] cs.tail with
      | none => s.fail .openComment
      | some (text, rest) => .ok ([], s.skip ('/' :: '*' :: text) rest)).map (returnedStep source) := by
  obtain ⟨body, rfl⟩ := List.head?_eq_some_iff.1 hstar
  have hmark : KeepsLine ['*', '/'] := by simp [KeepsLine]
  rw [withReturns_cons (by decide), List.tail_cons, List.tail_cons, hmark.throughFirst_withReturns (by simp)]
  cases ht : throughFirst ['*', '/'] body with
  | none => rfl
  | some parts =>
    obtain ⟨text, rest⟩ := parts
    have hrest : s.rest = '/' :: '*' :: text ++ rest := by rw [hr, ← throughFirst_append ht]; rfl
    have hskip := h.skip_returned hrest
    rw [withReturns_cons (by decide), withReturns_cons (by decide)] at hskip
    simp only [Option.map_some, Prod.map_apply, hskip]
    rfl

/-- A string between triple quotes is taken, or it is open. -/
theorem LexState.Stands.multiline_returned (h : s.Stands source) {cs : List Char} (hr : s.rest = '\'' :: cs)
    (hquotes : cs.take 2 = ['\'', '\'']) :
    (match throughFirst ['\'', '\'', '\''] ((withReturns cs).drop 2) with
      | none => (s.returned source).fail .openMultilineString
      | some (text, rest) =>
        .ok ((s.returned source).emit .multilineString ('\'' :: '\'' :: '\'' :: text) rest)) =
    (match throughFirst ['\'', '\'', '\''] (cs.drop 2) with
      | none => s.fail .openMultilineString
      | some (text, rest) => .ok (s.emit .multilineString ('\'' :: '\'' :: '\'' :: text) rest)).map
        (returnedStep source) := by
  obtain ⟨body, rfl⟩ : ∃ body, cs = '\'' :: '\'' :: body :=
    ⟨cs.drop 2, by rw [← List.take_append_drop 2 cs, hquotes]; rfl⟩
  have hmark : KeepsLine ['\'', '\'', '\''] := by simp [KeepsLine]
  rw [withReturns_cons (by decide), withReturns_cons (by decide), List.drop_succ_cons, List.drop_succ_cons,
    List.drop_zero, List.drop_succ_cons, List.drop_succ_cons, List.drop_zero, hmark.throughFirst_withReturns (by simp)]
  cases ht : throughFirst ['\'', '\'', '\''] body with
  | none => rfl
  | some parts =>
    obtain ⟨text, rest⟩ := parts
    have hrest : s.rest = '\'' :: '\'' :: '\'' :: text ++ rest := by rw [hr, ← throughFirst_append ht]; rfl
    have htaken := h.emit_returned hrest (show TokenKind.multilineString ≠ .newline by decide) fun hne => absurd rfl hne
    rw [withReturns_cons (by decide), withReturns_cons (by decide), withReturns_cons (by decide)] at htaken
    exact congrArg Except.ok htaken

/-- In code the same lexeme is taken or the same fault found, except at a newline or a comment to the end of its line. -/
theorem LexState.Stands.codeStep_returned (h : s.Stands source) {c : Char} {cs : List Char} (hr : s.rest = c :: cs)
    (hc : c ≠ '\n') (hline : ¬ (c = '#' || (c = '/' && cs.head? = some '/')) = true) :
    codeStep (s.returned source) c (withReturns cs) = (codeStep s c cs).map (returnedStep source) := by
  have hhead {d : Char} (hd : d ≠ '\r') (hd' : d ≠ '\n') : (withReturns cs).head? = some d ↔ cs.head? = some d :=
    head?_withReturns hd hd' cs
  have hquotes : (withReturns cs).take 2 = ['\'', '\''] ↔ cs.take 2 = ['\'', '\''] := by
    have hstart := (show KeepsLine ['\'', '\''] by simp [KeepsLine]).isPrefixOf_withReturns cs
    rw [Bool.eq_iff_iff, List.isPrefixOf_iff_prefix, List.isPrefixOf_iff_prefix, List.prefix_iff_eq_take,
      List.prefix_iff_eq_take] at hstart
    exact eq_comm.trans (hstart.trans eq_comm)
  have hone := @LexState.Stands.emit_one_returned _ _ h c cs hr hc
  unfold codeStep
  simp only [hhead (d := '/') (by decide) (by decide), hhead (d := '*') (by decide) (by decide), hquotes,
    markAt_withReturns, splitNumber_withReturns]
  rw [if_neg hc, if_neg hc, if_neg hline, if_neg hline]
  by_cases hblank : isBlank c = true
  · have hskip := h.skip_returned (show s.rest = [c] ++ cs from hr)
    rw [withReturns_cons hc, withReturns_nil] at hskip
    rw [if_pos hblank, if_pos hblank, hskip]
    rfl
  rw [if_neg hblank, if_neg hblank]
  by_cases hcomment : (c = '/' && cs.head? = some '*') = true
  · rw [if_pos hcomment, if_pos hcomment]
    simp only [Bool.and_eq_true, decide_eq_true_eq] at hcomment
    obtain ⟨rfl, hstar⟩ := hcomment
    exact h.blockComment_returned hr hstar
  rw [if_neg hcomment, if_neg hcomment]
  by_cases hquote : c = '\''
  · subst hquote
    rw [if_pos rfl, if_pos rfl]
    by_cases htriple : cs.take 2 = ['\'', '\'']
    · rw [if_pos htriple, if_pos htriple]
      exact h.multiline_returned hr htriple
    · rw [if_neg htriple, if_neg htriple]
      exact congrArg Except.ok (hone .string s.opened (by decide))
  rw [if_neg hquote, if_neg hquote]
  by_cases hdigit : c.isDigit = true
  · rw [if_pos hdigit, if_pos hdigit]
    exact congrArg Except.ok (h.number_returned hr hc)
  rw [if_neg hdigit, if_neg hdigit]
  by_cases hname : isNameStart c = true
  · rw [if_pos hname, if_pos hname]
    exact congrArg Except.ok (h.name_returned hr hc)
  rw [if_neg hname, if_neg hname]
  cases hopen : bracketOpenedBy c with
  | some opening =>
    obtain ⟨bracket, kind⟩ := opening
    have hk := ne_newline_of_isSpelled (bracketOpenedBy_eq_some hopen).1 hc
    exact congrArg Except.ok (hone s.mode (⟨bracket, s.here.line, s.here.column⟩ :: s.opened) hk)
  | none =>
    cases hclose : bracketClosedBy c with
    | some closing =>
      obtain ⟨bracket, kind⟩ := closing
      have hk := ne_newline_of_isSpelled (bracketClosedBy_eq_some hclose).1 hc
      simp only [show (s.returned source).opened = s.opened from rfl]
      cases hopened : s.opened with
      | nil => rfl
      | cons o outer =>
        simp only
        split
        · exact congrArg Except.ok (hone .string outer (by decide))
        · split
          · exact congrArg Except.ok (hone s.mode outer hk)
          · rfl
    | none => exact congrArg Except.ok (h.mark_returned hr hc)

/-- The reader still stands at a place of the text after a step. -/
theorem LexState.Stands.step {after : LexState} {ts : List Token} (h : s.Stands source)
    (hstep : s.step = some (.ok (ts, after))) : after.Stands source := by
  obtain ⟨before, hsource, hhere⟩ := h
  obtain ⟨text, hr, hafter⟩ := exists_walk_of_step hstep
  exact ⟨before ++ text, by rw [hsource, hr, List.append_assoc],
    by rw [hafter, Cursor.advance_offset, hhere, byteLength_append]⟩

/-- Before a newline the reader passes over the carriage return first. -/
theorem tokens_returned_newline {cs : List Char} (hm : s.mode = .code) (hr : s.rest = '\n' :: cs) :
    (s.returned source).tokens = ((s.returned source).skip ['\r'] ('\n' :: withReturns cs)).tokens :=
  tokens_skip (.blank (by decide) (by decide) .nil) hm (by rw [LexState.returned, hr]; rfl)

/-- A newline is taken behind its carriage return. -/
theorem LexState.Stands.newline_returned {cs : List Char} (h : s.Stands source) (hr : s.rest = '\n' :: cs) :
    ((s.returned source).skip ['\r'] ('\n' :: withReturns cs)).emit .newline ['\n'] (withReturns cs) =
      returnedStep source (s.emit .newline ['\n'] cs) := by
  have hskip := h.skip_returned (show s.rest = ['\n'] ++ cs from hr)
  have hstop : (returnedPlace source s.here.offset + 1) + 1 = returnedPlace source (s.here.offset + 1) :=
    congrArg (·.here.offset) hskip
  have htoken : Token.ofChars .newline ((s.here.returned source).advance ['\r']) ['\n'] =
      (Token.ofChars .newline s.here ['\n']).returned source := by
    rw [Token.returned, if_pos (show (Token.ofChars .newline s.here ['\n']).kind = .newline from rfl)]
    exact congrArg (fun stop => (⟨.newline, _, ⟨returnedPlace source s.here.offset + 1, stop⟩, _, _⟩ : Token)) hstop
  exact Prod.ext (congrArg (fun t => [t]) htoken) hskip

/-- A comment goes on to the end of its line, and the carriage return there belongs to it. -/
theorem LexState.Stands.lineComment_returned (h : s.Stands source) (hm : s.mode = .code) {c : Char} {cs : List Char}
    (hr : s.rest = c :: cs) (hc : c ≠ '\n') :
    ((s.returned source).skip (c :: (withReturns cs).takeWhile (· ≠ '\n'))
        ((withReturns cs).dropWhile (· ≠ '\n'))).tokens =
      ((s.skip (c :: cs.takeWhile (· ≠ '\n')) (cs.dropWhile (· ≠ '\n'))).returned source).tokens := by
  have hrest : s.rest = c :: cs.takeWhile (· ≠ '\n') ++ cs.dropWhile (· ≠ '\n') := by
    rw [hr, List.cons_append, List.takeWhile_append_dropWhile]
  have hskip := h.skip_returned hrest
  have hline : withReturns (cs.takeWhile (· ≠ '\n')) = cs.takeWhile (· ≠ '\n') :=
    withReturns_of_not_mem fun hn => absurd (of_mem_takeWhile hn) (by decide)
  rw [withReturns_cons hc, hline] at hskip
  rcases line_withReturns cs with ⟨hdrop, hreturns⟩ | ⟨rest, hdrop, htake, hdrop'⟩
  · rw [← hskip, hreturns, hdrop]
    rfl
  · rw [hdrop] at hskip ⊢
    have hreturn := @tokens_returned_newline source (s.skip (c :: cs.takeWhile (· ≠ '\n')) ('\n' :: rest)) rest hm rfl
    rw [htake, hdrop', hreturn, ← hskip, ← List.cons_append, LexState.skip, Cursor.advance_append]
    rfl

/-- Steps that correspond give tokens that correspond, if the tokens after them do. -/
theorem tokens_of_step_returned {s s' : LexState} (hstep : s'.step = s.step.map (Except.map (returnedStep source)))
    {r : Except ScanError (List Token × LexState)} (hr : s.step = some r)
    (ih : ∀ ts after, s.step = some (.ok (ts, after)) →
      (after.returned source).tokens = after.tokens.map (List.map (Token.returned source))) :
    s'.tokens = s.tokens.map (List.map (Token.returned source)) := by
  rw [hr] at hstep
  cases r with
  | error e => rw [tokens_of_step_error hr, tokens_of_step_error hstep]; rfl
  | ok parts =>
    obtain ⟨ts, after⟩ := parts
    rw [tokens_of_step hr, tokens_of_step hstep, ih ts after hr]
    cases after.tokens with
    | error e => rfl
    | ok others => simp [Except.map]

/-- The tokens from a place on. -/
theorem LexState.Stands.tokens_returned {s : LexState} (h : s.Stands source) :
    (s.returned source).tokens = s.tokens.map (List.map (Token.returned source)) := by
  have ih (ts : List Token) (after : LexState) (hstep : s.step = some (.ok (ts, after))) :
      (after.returned source).tokens = after.tokens.map (List.map (Token.returned source)) :=
    have := LexState.length_step_lt hstep
    tokens_returned (h.step hstep)
  -- The two readers make the same steps except at a newline and after a line comment, where the carriage return is a
  -- step of its own that takes no token.
  cases hm : s.mode with
  | string =>
    have hstep : s.step = some (stringStep s) := by simp only [LexState.step, hm]
    exact tokens_of_step_returned (h.step_string_returned hm) hstep ih
  | code =>
    cases hr : s.rest with
    | nil =>
      obtain ⟨mode, here, opened, rest⟩ := s
      simp only at hm hr
      subst hm hr
      rw [LexState.tokens, LexState.tokens]
      cases opened <;> rfl
    | cons c cs =>
      have hstep := step_code hm hr
      by_cases hc : c = '\n'
      · subst hc
        rw [tokens_returned_newline hm hr]
        refine tokens_of_step_returned ?_ hstep ih
        have hstep' := step_code (s := (s.returned source).skip ['\r'] ('\n' :: withReturns cs)) hm rfl
        rw [hstep', hstep, codeStep, codeStep, if_pos rfl, if_pos rfl]
        exact congrArg (fun r => some (Except.ok r)) (h.newline_returned hr)
      · have hr' : (s.returned source).rest = c :: withReturns cs := by rw [LexState.returned, hr, withReturns_cons hc]
        have hstep' := step_code (s := s.returned source) hm hr'
        by_cases hline : (c = '#' || (c = '/' && cs.head? = some '/')) = true
        · have hhead : (withReturns cs).head? = some '/' ↔ cs.head? = some '/' :=
            head?_withReturns (by decide) (by decide) cs
          rw [codeStep_line hline] at hstep
          rw [codeStep_line (by simpa only [hhead] using hline)] at hstep'
          rw [tokens_of_step hstep', tokens_of_step hstep, h.lineComment_returned hm hr hc, ih _ _ hstep]
          cases (s.skip (c :: cs.takeWhile (· ≠ '\n')) (cs.dropWhile (· ≠ '\n'))).tokens <;> rfl
        · refine tokens_of_step_returned ?_ hstep ih
          rw [hstep', hstep, h.codeStep_returned hr hc hline]
          rfl
termination_by s.rest.length

/-- The reader starts at the start of the text. -/
theorem stands_initial (source : String) : (LexState.initial source.toList).Stands source := by
  obtain ⟨mark, rest, htext, -, -, hinitial⟩ := initial_cases source.toList
  rw [hinitial]
  exact ⟨mark, htext, rfl⟩

/-- A byte-order mark is passed over in both texts. -/
theorem initial_returned (source : String) :
    LexState.initial (withReturns source.toList) = (LexState.initial source.toList).returned source := by
  have horigin : Cursor.returned source .origin = .origin :=
    @Cursor.returned_of_append source [] source.toList .origin rfl rfl
  cases hcs : source.toList with
  | nil => rw [withReturns_nil, LexState.initial, LexState.returned, horigin, withReturns_nil]
  | cons c rest =>
    by_cases hn : c = '\n'
    · subst hn
      rw [LexState.initial, if_neg (by decide), LexState.returned, horigin]
      rfl
    · rw [withReturns_cons hn, LexState.initial, LexState.initial]
      split
      · have hafter := @Cursor.returned_of_append source [c] rest { Cursor.origin with offset := c.utf8Size } hcs rfl
        rw [List.count_eq_zero.2 (by simpa using Ne.symm hn)] at hafter
        rw [LexState.returned, hafter]
        rfl
      · rw [LexState.returned, horigin, withReturns_cons hn]

end Steps

/-- The text with carriage returns has the same tokens, or it has the same fault at the same place. -/
theorem tokenize_returned (source : String) :
    tokenize (Text.returned source) = (tokenize source).map (List.map (Token.returned source)) := by
  rw [tokenize, tokenize, Text.returned, String.toList_ofList, initial_returned, (stands_initial source).tokens_returned]

end BicepMigration.Template
