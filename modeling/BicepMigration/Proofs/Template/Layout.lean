import BicepMigration.Proofs.Template.LexerStep

/-!
# Layouts

A layout is what a template consists of: perhaps a byte-order mark, lexemes, and a gap at the end. The lexemes
are legible, and their brackets and strings are balanced. A text can be read exactly if it has a layout, and its
tokens are then those of the lexemes.
-/

namespace BicepMigration.Template

open Text

/-- A step reads its tokens before all others. -/
theorem tokens_of_step {s after : LexState} {ts : List Token} (h : s.step = some (.ok (ts, after))) :
    s.tokens = after.tokens.map (ts ++ ·) := by
  rw [LexState.tokens]
  split
  · next h' => simp [h] at h'
  · next h' => simp [h] at h'
  · next h' =>
    rw [h] at h'
    simp only [Option.some.injEq, Except.ok.injEq, Prod.mk.injEq] at h'
    obtain ⟨rfl, rfl⟩ := h'
    rfl

/-- A step that fails ends the reading. -/
theorem tokens_of_step_error {s : LexState} {e : ScanError} (h : s.step = some (.error e)) : s.tokens = .error e := by
  rw [LexState.tokens]
  split
  · next h' => simp [h] at h'
  · next h' =>
    rw [h] at h'
    simp only [Option.some.injEq, Except.error.injEq] at h'
    rw [h']
  · next h' => simp [h] at h'

/-- A token that is taken comes before all others. -/
theorem tokens_of_takes {s : LexState} {kind : TokenKind} {text rest : List Char} {n : Nest}
    (h : s.Takes kind text rest n) :
    ∃ after : LexState, s.tokens = after.tokens.map (Token.ofChars kind s.here text :: ·) ∧
      after.here = s.here.advance text ∧ after.rest = rest ∧ after.nest = n := by
  obtain ⟨after, hstep, hafter⟩ := h
  exact ⟨after, tokens_of_step hstep, hafter⟩

/-- A step that passes over characters reads no token. -/
theorem tokens_of_skip {s : LexState} {text rest : List Char} (h : s.step = some (.ok ([], s.skip text rest))) :
    s.tokens = (s.skip text rest).tokens := by
  rw [tokens_of_step h]
  cases (s.skip text rest).tokens <;> rfl

/-- A comment to the end of its line is passed over in one step. -/
theorem step_line {s : LexState} {opening body next : List Char} (hm : s.mode = .code)
    (ho : opening = ['#'] ∨ opening = ['/', '/']) (hbody : ∀ c ∈ body, c ≠ '\n')
    (hnext : ∀ c, next.head? = some c → c = '\n') (hr : s.rest = opening ++ body ++ next) :
    s.step = some (.ok ([], s.skip (opening ++ body) next)) := by
  have hb : ∀ c ∈ body, (!decide (c = '\n')) = true := fun c hc => by simpa using hbody c hc
  have hn : next.takeWhile (fun c => !decide (c = '\n')) = [] ∧
      next.dropWhile (fun c => !decide (c = '\n')) = next := by
    cases next with
    | nil => exact ⟨rfl, rfl⟩
    | cons c cs => simp [hnext c rfl]
  have ht := (@List.takeWhile_append_of_pos _ _ _ next) hb
  have hd := (@List.dropWhile_append_of_pos _ _ _ next) hb
  rw [hn.1, List.append_nil] at ht
  rw [hn.2] at hd
  rcases ho with rfl | rfl
  · have hb : isBlank '#' = false := by decide
    rw [step_code hm hr, codeStep]
    simp [hb, ht, hd]
  · have hb : isBlank '/' = false := by decide
    rw [step_code hm hr, codeStep]
    simp [hb, ht, hd]

/-- No token is read from a gap. -/
theorem tokens_skip {s : LexState} {gap next : List Char} (hg : IsGap gap next) (hm : s.mode = .code)
    (hr : s.rest = gap ++ next) : s.tokens = (s.skip gap next).tokens := by
  induction hg generalizing s with
  | nil =>
    obtain ⟨mode, here, opened, rest⟩ := s
    simp only at hr
    subst hr
    rfl
  | @blank c cs next hc hb _ ih =>
    rw [@tokens_of_skip s [c] (cs ++ next)]
    · exact ih (s := s.skip [c] (cs ++ next)) hm rfl
    · rw [step_code hm hr, codeStep]
      simp [hc, hb]
  | @block body cs next ht _ ih =>
    have ht' := throughFirst_append_right ht (cs ++ next)
    rw [@tokens_of_skip s ('/' :: '*' :: body) (cs ++ next)]
    · rw [ih (s := s.skip ('/' :: '*' :: body) (cs ++ next)) hm rfl]
      simp [LexState.skip, Cursor.advance_append]
    · have hb : isBlank '/' = false := by decide
      rw [List.cons_append, List.cons_append, List.append_assoc] at hr
      rw [step_code hm hr, codeStep]
      simp [hb, ht']
  | line ho hbody hnext => exact tokens_of_skip (step_line hm ho hbody hnext hr)

/-- Reading the text of a string and the mark after it. -/
theorem tokens_string {s : LexState} {kind : TokenKind} {text mark rest : List Char} {n : Nest}
    (hm : s.mode = .string) (hr : s.rest = text ++ (mark ++ rest))
    (ht : text = [] ∨ IsSpelled .stringText text) (hk : IsSpelled kind mark)
    (hn : Nest.after ⟨.closing, s.nest.opened⟩ kind = some n) :
    ∃ after : LexState, s.tokens =
        after.tokens.map ((textToken s.here text ++ [Token.ofChars kind (s.here.advance text) mark]) ++ ·) ∧
      after.here = (s.here.advance text).advance mark ∧ after.rest = rest ∧ after.nest = n := by
  have hsplit (he : EndsText (mark ++ rest)) : splitString s.rest = some (text, mark ++ rest) := by
    rw [hr]
    rcases ht with rfl | ⟨-, ht⟩
    · exact splitString_of_endsText he
    · exact splitString_append_right ht he
  cases kind with
  | holeStart =>
    obtain rfl : mark = ['$', '{'] := hk
    obtain rfl := Option.some.inj hn
    exact ⟨_, tokens_of_step (step_hole hm (hsplit (.inr ⟨rest, rfl⟩))), rfl, rfl, rfl⟩
  | stringEnd =>
    obtain rfl : mark = ['\''] := hk
    obtain rfl := Option.some.inj hn
    exact ⟨_, tokens_of_step (step_stringEnd hm (hsplit (.inl rfl))), rfl, rfl, rfl⟩
  | _ => simp [Nest.after] at hn

/-- Tokens are what their lexemes are. -/
theorem kinds_tokensAt (here : Cursor) (ls : List Lexeme) : kinds (tokensAt here ls) = ls.map (·.kind) := by
  induction ls generalizing here with
  | nil => rfl
  | cons l ls ih => simp [tokensAt, Token.ofChars, ih]

/-- Legible text with balanced brackets and strings is read as its lexemes. -/
theorem tokens_of_legible {ls : List Lexeme} {tail : List Char} {s : LexState} (hl : Legible ls tail)
    (ht : IsGap tail []) (hn : s.nest.run (ls.map (·.kind)) = some .top) (hr : s.rest = written ls ++ tail) :
    s.tokens = .ok (tokensAt s.here ls) := by
  match ls, hl with
  | [], _ =>
    obtain ⟨mode, here, opened, rest⟩ := s
    simp only [List.map_nil, Nest.run_nil, LexState.nest, Nest.top, Option.some.injEq, Nest.mk.injEq,
      List.map_eq_nil_iff] at hn
    obtain ⟨hz, rfl⟩ := hn
    cases mode with
    | string => simp [LexMode.zone] at hz
    | code =>
      simp only [written_nil, List.nil_append] at hr
      rw [tokens_skip ht rfl (by simp [hr]), LexState.tokens]
      simp [LexState.skip, LexState.step]
  | l :: ls, ⟨hg, ⟨hs, hi⟩, he, hl⟩ =>
    rw [List.map_cons, Nest.run_cons] at hn
    obtain ⟨n, ha, hn⟩ := Option.bind_eq_some_iff.1 hn
    cases hm : s.mode with
    | code =>
      rw [written_cons, List.append_assoc, List.append_assoc] at hr
      have hg' := hg
      rw [tokens_skip hg' hm hr]
      obtain ⟨after, htokens, hhere, hrest, hnest⟩ :=
        tokens_of_takes (takes_of_after (s := s.skip l.gap _) (n := n) hm rfl hs he ha)
      rw [htokens, tokens_of_legible hl ht (by rw [hnest]; exact hn) hrest, hhere]
      simp [tokensAt, Except.map, LexState.skip, Cursor.advance_append]
    | string =>
      have hzone : s.nest = ⟨.string, s.nest.opened⟩ := by simp [LexState.nest, hm, LexMode.zone]
      rw [hzone] at ha
      have hgap : l.gap = [] := hi (by cases hk : l.kind <;> simp [hk, Nest.after] at ha <;> rfl)
      by_cases hk : l.kind = .stringText
      · -- the text of a string is read together with the mark after it
        rw [hk] at ha hs
        obtain rfl := Option.some.inj ha
        cases ls with
        | nil => simp [Nest.top] at hn
        | cons m ls =>
          obtain ⟨hg', ⟨hs', hi'⟩, -, hl'⟩ := hl
          rw [List.map_cons, Nest.run_cons] at hn
          obtain ⟨n, ha', hn⟩ := Option.bind_eq_some_iff.1 hn
          have hgap' : m.gap = [] := hi' (by cases hk : m.kind <;> simp [hk, Nest.after] at ha' <;> rfl)
          simp only [written_cons, hgap, hgap', List.nil_append, List.append_assoc] at hr
          obtain ⟨after, htokens, hhere, hrest, hnest⟩ := tokens_string hm hr (.inr hs) hs' ha'
          rw [htokens, tokens_of_legible hl' ht (by rw [hnest]; exact hn) hrest, hhere]
          simp [tokensAt, Except.map, textToken, hgap, hgap', hs.1, hk]
      · have ha' : Nest.after ⟨.closing, s.nest.opened⟩ l.kind = some n := by
          cases hk' : l.kind <;> simp [hk', Nest.after] at ha hk ⊢ <;> exact ha
        simp only [written_cons, hgap, List.nil_append, List.append_assoc] at hr
        obtain ⟨after, htokens, hhere, hrest, hnest⟩ :=
          (@tokens_string _ _ []) hm hr (.inl rfl) hs ha'
        rw [htokens, tokens_of_legible hl ht (by rw [hnest]; exact hn) hrest, hhere]
        simp [tokensAt, Except.map, textToken, hgap]
termination_by ls.length

/-- Characters after a place are read as tokens: they are legible and balanced lexemes, and a gap. -/
structure Reads (n : Nest) (here : Cursor) (chars : List Char) (ts : List Token) (ls : List Lexeme)
    (tail : List Char) : Prop where
  legible : Legible ls tail
  isGap : IsGap tail []
  run : n.run (ls.map (·.kind)) = some .top
  chars : chars = written ls ++ tail
  tokens : ts = tokensAt here ls

/-- A part of a gap goes before the first lexeme, or before the end. -/
theorem Reads.pass {n : Nest} {here : Cursor} {gap rest : List Char} {ts : List Token} {ls : List Lexeme}
    {tail : List Char} (hz : n.zone = .code)
    (hg : ∀ more next, IsGap more next → more ++ next = rest → IsGap (gap ++ more) next)
    (h : Reads n (here.advance gap) rest ts ls tail) : ∃ ls tail, Reads n here (gap ++ rest) ts ls tail := by
  obtain ⟨hl, ht, hn, hrest, rfl⟩ := h
  cases ls with
  | nil =>
    refine ⟨[], gap ++ tail, trivial, hg tail [] ht ?_, hn, ?_, rfl⟩
    · rw [List.append_nil, hrest]
      rfl
    · rw [hrest]
      rfl
  | cons l ls =>
    obtain ⟨hlg, ⟨hls, hli⟩, hle, hl⟩ := hl
    have hinside : l.kind.insideString = false := by
      obtain ⟨zone, opened⟩ := n
      obtain rfl : zone = .code := hz
      rw [List.map_cons, Nest.run_cons] at hn
      obtain ⟨n, ha, -⟩ := Option.bind_eq_some_iff.1 hn
      cases hk : l.kind <;> simp [hk, Nest.after, TokenKind.insideString] at ha ⊢
    refine ⟨{ l with gap := gap ++ l.gap } :: ls, tail, ⟨?_, ⟨hls, fun h => ?_⟩, hle, hl⟩, ht, hn, ?_, ?_⟩
    · refine hg l.gap _ hlg ?_
      rw [hrest]
      simp
    · rw [hinside] at h
      cases h
    · rw [hrest]
      simp
    · simp [tokensAt, Cursor.advance_append]

/-- A token goes before the others. -/
theorem Reads.take {n m : Nest} {here : Cursor} {kind : TokenKind} {text rest : List Char} {ts : List Token}
    {ls : List Lexeme} {tail : List Char} (hs : IsSpelled kind text) (he : EndsAt kind text rest)
    (hn : n.after kind = some m) (h : Reads m (here.advance text) rest ts ls tail) :
    Reads n here (text ++ rest) (Token.ofChars kind here text :: ts) (⟨[], kind, text⟩ :: ls) tail := by
  obtain ⟨hl, ht, hrun, hrest, rfl⟩ := h
  refine ⟨⟨.nil, ⟨hs, fun _ => rfl⟩, ?_, hl⟩, ht, ?_, ?_, ?_⟩
  · rw [← hrest]
    exact he
  · rw [List.map_cons, Nest.run_cons, hn]
    exact hrun
  · rw [hrest]
    simp
  · simp [tokensAt]

/-- Where nothing is left to read the text is at its end. -/
theorem exists_reads_end {s : LexState} {ts : List Token} (hstep : s.step = none) (h : s.tokens = .ok ts) :
    ∃ ls tail, Reads s.nest s.here s.rest ts ls tail := by
  obtain ⟨mode, here, opened, rest⟩ := s
  cases mode with
  | string => simp [LexState.step] at hstep
  | code =>
    cases rest with
    | cons c cs => simp [LexState.step] at hstep
    | nil =>
      rw [LexState.tokens] at h
      cases opened with
      | nil =>
        obtain rfl : ts = [] := by simpa [LexState.step] using h.symm
        exact ⟨[], [], trivial, .nil, rfl, rfl, rfl⟩
      | cons o opened => simp [LexState.step] at h

/-- A step in code reads a part of a gap or a token. -/
theorem Reads.exists_before_code {s after : LexState} {read others : List Token} {ls : List Lexeme} {tail : List Char}
    (hm : s.mode = .code) (hstep : s.step = some (.ok (read, after)))
    (h : Reads after.nest after.here after.rest others ls tail) :
    ∃ ls tail, Reads s.nest s.here s.rest (read ++ others) ls tail := by
  cases hr : s.rest with
  | nil => simp [LexState.step, hm, hr] at hstep
  | cons c cs =>
    rw [step_code hm hr, Option.some.injEq] at hstep
    cases codeStep_cases hm hstep with
    | pass hr' hg =>
      rw [hr']
      exact h.pass (by simp [LexState.nest, hm, LexMode.zone]) hg
    | take hr' hs he hh hn =>
      rw [hh] at h
      rw [hr']
      exact ⟨_, _, h.take hs he hn⟩

/-- A step in a string reads a mark, and the text before it if there is any. -/
theorem Reads.exists_before_string {s after : LexState} {read others : List Token} {ls : List Lexeme}
    {tail : List Char} (hm : s.mode = .string) (hstep : s.step = some (.ok (read, after)))
    (h : Reads after.nest after.here after.rest others ls tail) :
    ∃ ls tail, Reads s.nest s.here s.rest (read ++ others) ls tail := by
  have hz : s.nest = ⟨.string, s.nest.opened⟩ := by simp [LexState.nest, hm, LexMode.zone]
  simp only [LexState.step, hm, Option.some.injEq] at hstep
  obtain ⟨text, kind, mark, hr, ht, hs, he, hn, hh, rfl⟩ := stringStep_cases hstep
  rw [hh] at h
  rw [hr, hz]
  rcases ht with rfl | ht
  · have hn' : Nest.after ⟨.string, s.nest.opened⟩ kind = some after.nest := by
      cases hk : kind <;> simp [hk, Nest.after] at hn ⊢ <;> exact hn
    exact ⟨_, _, h.take hs (he _) hn'⟩
  · rw [textToken, if_neg ht.1]
    exact ⟨_, _, (h.take hs (he _) hn).take ht trivial rfl⟩

/-- What can be read is legible and balanced. -/
theorem exists_reads {s : LexState} {ts : List Token} (h : s.tokens = .ok ts) :
    ∃ ls tail, Reads s.nest s.here s.rest ts ls tail := by
  cases hstep : s.step with
  | none => exact exists_reads_end hstep h
  | some r =>
    cases r with
    | error e => simp [tokens_of_step_error hstep] at h
    | ok r =>
      obtain ⟨read, after⟩ := r
      rw [tokens_of_step hstep] at h
      have hlt := LexState.length_step_lt hstep
      cases hafter : after.tokens with
      | error e => simp [hafter, Except.map] at h
      | ok others =>
        obtain ⟨ls, tail, hreads⟩ := exists_reads hafter
        obtain rfl : ts = read ++ others := by simpa [hafter, Except.map] using h.symm
        cases hm : s.mode with
        | code => exact hreads.exists_before_code hm hstep
        | string => exact hreads.exists_before_string hm hstep
termination_by s.rest.length

/-- A template as lexemes. -/
structure Layout where
  /-- A byte-order mark, or nothing. -/
  mark : List Char
  /-- The lexemes. -/
  lexemes : List Lexeme
  /-- White space and comments after the last lexeme. -/
  tail : List Char
  mark_eq : mark = [] ∨ mark = [byteOrderMark]
  head_ne : mark = [] → (written lexemes ++ tail).head? ≠ some byteOrderMark
  legible : Legible lexemes tail
  isGap : IsGap tail []
  balanced : Balanced (lexemes.map (·.kind))

namespace Layout

/-- The characters of a template. -/
def chars (l : Layout) : List Char := l.mark ++ (written l.lexemes ++ l.tail)

/-- The place where the first lexeme starts. -/
def start (l : Layout) : Cursor := { Cursor.origin with offset := byteLength l.mark }

/-- The tokens of a template. -/
def tokens (l : Layout) : List Token := tokensAt l.start l.lexemes

/-- The reading starts behind the byte-order mark. -/
theorem initial_chars (l : Layout) : LexState.initial l.chars = ⟨.code, l.start, [], written l.lexemes ++ l.tail⟩ := by
  obtain ⟨mark, lexemes, tail, hmark, hhead, -⟩ := l
  unfold LexState.initial chars start
  rcases hmark with rfl | rfl
  · simp only [List.nil_append]
    cases hr : written lexemes ++ tail with
    | nil => rfl
    | cons c cs =>
      have hc : c ≠ byteOrderMark := by
        rintro rfl
        exact hhead rfl (by rw [hr]; rfl)
      simp only [hc, if_false]
      rfl
  · simp

end Layout

/-- A text starts after its byte-order mark, if it has one. -/
theorem initial_cases (cs : List Char) : ∃ mark rest, cs = mark ++ rest ∧ (mark = [] ∨ mark = [byteOrderMark]) ∧
    (mark = [] → rest.head? ≠ some byteOrderMark) ∧
    LexState.initial cs = ⟨.code, { Cursor.origin with offset := byteLength mark }, [], rest⟩ := by
  unfold LexState.initial
  cases cs with
  | nil => exact ⟨[], [], rfl, .inl rfl, by simp, rfl⟩
  | cons c rest =>
    by_cases hc : c = byteOrderMark
    · subst hc
      exact ⟨[byteOrderMark], rest, rfl, .inr rfl, by simp, by simp⟩
    · exact ⟨[], c :: rest, rfl, .inl rfl, by simp [hc], by
        simp only [hc, if_false]
        rfl⟩

/-- Exactly the texts with a layout can be read, and their tokens are those of the layout. -/
theorem tokenize_eq_ok_iff {source : String} {ts : List Token} :
    tokenize source = .ok ts ↔ ∃ l : Layout, source.toList = l.chars ∧ ts = l.tokens := by
  unfold tokenize
  constructor
  · intro h
    obtain ⟨mark, rest, hs, hmark, hhead, hinitial⟩ := initial_cases source.toList
    rw [hinitial] at h
    obtain ⟨ls, tail, hl, ht, hn, hr, rfl⟩ := exists_reads h
    obtain rfl : rest = written ls ++ tail := hr
    exact ⟨⟨mark, ls, tail, hmark, hhead, hl, ht, hn⟩, hs, rfl⟩
  · rintro ⟨l, hs, rfl⟩
    rw [hs, l.initial_chars]
    exact tokens_of_legible l.legible l.isGap l.balanced rfl

end BicepMigration.Template
