import BicepMigration.Proofs.Template.Holding
import BicepMigration.Proofs.Template.Sense

/-!
# A statement says what its own tokens say

Reading goes on over the tokens of a statement up to a newline outside brackets, or to the end of the template. So
other tokens may follow, or none. An exception is a keyword alone on its line: a literal may then be read from the next
line as a target, but such a statement declares no symbol. Main statement: a statement says what is read from its
own tokens alone.
-/

namespace BicepMigration.Template

open Text

variable {source : String} {line rest : List Token}

section Append

/-- At the end of a line stands a newline, if anything. -/
theorem head_of_atLineEnd {t : Token} {ts : List Token} (h : atLineEnd (t :: ts) = true) : t.kind = .newline := by
  simpa [atLineEnd] using h

/-- A newline is no word. -/
theorem not_isWord_of_newline {t : Token} (h : t.kind = .newline) (word : String) : t.isWord word = false := by
  simp [Token.isWord, h]

/-- A string does not go on behind the end of a line. -/
theorem literalAt_append (he : atLineEnd rest = true) (ts : List Token) :
    literalAt (ts ++ rest) = (literalAt ts).map fun (text, after) => (text, after ++ rest) := by
  cases rest with
  | nil =>
    rw [List.append_nil]
    cases literalAt ts <;> simp
  | cons t rest =>
    have ht := head_of_atLineEnd he
    match ts with
    | [] =>
      cases rest with
      | nil => rfl
      | cons u rest => simp [literalAt, ht]
    | [opening] => simp [literalAt, ht]
    | [opening, middle] =>
      simp only [List.cons_append, List.nil_append, literalAt, ht]
      split
      · split
        · rfl
        · split <;> rfl
      · rfl
    | opening :: middle :: closing :: ts =>
      simp only [List.cons_append, literalAt]
      split
      · split
        · rfl
        · split
          · split
            · rw [Option.map_map]
              rfl
            · rfl
          · rfl
      · rfl

/-- The first word does not depend on other lines. -/
theorem startsWithWord_append (he : atLineEnd rest = true) (word : String) (ts : List Token) :
    startsWithWord word (ts ++ rest) = startsWithWord word ts := by
  cases ts with
  | nil =>
    cases rest with
    | nil => rfl
    | cons t rest => exact not_isWord_of_newline (head_of_atLineEnd he) word
  | cons t ts => rfl

/-- Passing over a word leaves other lines as they are. -/
theorem dropWord_append (he : atLineEnd rest = true) (word : String) (ts : List Token) :
    dropWord word (ts ++ rest) = dropWord word ts ++ rest := by
  unfold dropWord
  rw [startsWithWord_append he]
  split
  · next hw =>
    cases ts with
    | nil => cases hw
    | cons t ts => rfl
  · rfl

/-- Whether a loop starts does not depend on other lines. -/
theorem startsLoop_append (he : atLineEnd rest = true) (ts : List Token) :
    startsLoop (ts ++ rest) = startsLoop ts := by
  cases rest with
  | nil => rw [List.append_nil]
  | cons t rest =>
    have ht := head_of_atLineEnd he
    match ts with
    | [] =>
      cases rest with
      | nil => rfl
      | cons u rest => simp [startsLoop, ht]
    | [bracket] => simp [startsLoop, not_isWord_of_newline ht]
    | bracket :: word :: ts => rfl

/-- Whether a loop is assigned does not depend on other lines. -/
theorem assignsLoop_append (he : atLineEnd rest = true) (ts : List Token) :
    assignsLoop (ts ++ rest) = assignsLoop ts := by
  induction ts with
  | nil =>
    cases rest with
    | nil => rfl
    | cons t rest => simp [assignsLoop, head_of_atLineEnd he]
  | cons t ts ih => rw [List.cons_append, assignsLoop, assignsLoop, startsLoop_append he, ih]

/-- The kind of a statement does not depend on other lines. -/
theorem kindAt_append (he : atLineEnd rest = true) (ts : List Token) : kindAt (ts ++ rest) = kindAt ts := by
  cases ts with
  | nil =>
    cases rest with
    | nil => rfl
    | cons t rest => simp [kindAt, not_isWord_of_newline (head_of_atLineEnd he)]
  | cons t ts => rfl

/-- Whether a line ends does not depend on other lines. -/
theorem atLineEnd_append (he : atLineEnd rest = true) (ts : List Token) : atLineEnd (ts ++ rest) = atLineEnd ts := by
  cases ts with
  | nil => exact he
  | cons t ts => rfl

/-- A head is read on its line. -/
theorem readHead_append (he : atLineEnd rest = true) {ts : List Token} (hne : ts ≠ []) :
    readHead (ts ++ rest) = (readHead ts).map fun (head, after) => (head, after ++ rest) := by
  match ts with
  | [] => exact absurd rfl hne
  | [keyword] =>
    cases rest with
    | nil => rfl
    | cons t rest => simp [readHead, head_of_atLineEnd he]
  | keyword :: name :: ts =>
    simp only [List.cons_append, readHead, literalAt_append he]
    split
    · rcases literalAt ts with _ | ⟨target, after⟩
      · rfl
      · simp only [Option.map_some, dropWord_append he, startsWithWord_append he]
        rcases dropWord "existing" after with _ | ⟨equals, last⟩
        · cases rest with
          | nil => rfl
          | cons t rest => simp [head_of_atLineEnd he]
        · simp only [List.cons_append]
          split <;> rfl
    · rfl

/-- What follows the close of a bracket does not matter. -/
theorem breakAtClose_append_right {depth : Nat} {ts found after : List Token} {close : Token}
    (h : breakAtClose depth ts = some (found, close, after)) (rest : List Token) :
    breakAtClose depth (ts ++ rest) = some (found, close, after ++ rest) := by
  induction ts generalizing depth found with
  | nil => cases h
  | cons t ts ih =>
    rw [List.cons_append]
    unfold breakAtClose at h ⊢
    split at h
    · next hs =>
      obtain ⟨rfl, rfl, rfl⟩ : [] = found ∧ t = close ∧ ts = after := by simpa using h
      rw [if_pos hs]
    · next hs =>
      obtain ⟨⟨a, b, c⟩, hr, heq⟩ := Option.map_eq_some_iff.1 h
      obtain ⟨rfl, rfl, rfl⟩ : t :: a = found ∧ b = close ∧ c = after := by simpa using heq
      rw [if_neg hs, ih hr]
      rfl

/-- What closes all brackets before the end of a line is broken as it would be alone. -/
theorem breakOutside_append_right {n : Nest} {ts : List Token} (h : n.run (kinds ts) = some .top)
    (he : atLineEnd rest = true) :
    breakOutside (· = .newline) n.opened.length (ts ++ rest) =
      ((breakOutside (· = .newline) n.opened.length ts).1, (breakOutside (· = .newline) n.opened.length ts).2 ++ rest) := by
  induction ts generalizing n with
  | nil =>
    obtain rfl : n = .top := by simpa using h
    cases rest with
    | nil => rfl
    | cons t rest => simp [breakOutside, head_of_atLineEnd he, Nest.top]
  | cons t ts ih =>
    rw [kinds_cons, Nest.run_cons] at h
    obtain ⟨m, hm, hr⟩ := Option.bind_eq_some_iff.1 h
    rw [List.cons_append, breakOutside, breakOutside, Nest.depthAfter_eq hm, ih hr]
    split <;> rfl

/-- A line that is balanced ends where it did. -/
theorem breakLine_append_right {ts : List Token} (hb : Balanced (kinds ts)) (he : atLineEnd rest = true) :
    breakLine (ts ++ rest) = ((breakLine ts).1, (breakLine ts).2 ++ rest) :=
  breakOutside_append_right (n := .top) hb he

/-- A condition is read on its line. -/
theorem readOptionalCondition_append (hb : Balanced (kinds line)) (he : atLineEnd rest = true) :
    readOptionalCondition source (line ++ rest) =
      (readOptionalCondition source line).map fun (condition, after) => (condition, after ++ rest) := by
  unfold readOptionalCondition
  rw [startsWithWord_append he]
  split
  · next hif =>
    match line with
    | [] => cases hif
    | [word] =>
      cases rest with
      | nil => rfl
      | cons t rest => simp [readCondition, head_of_atLineEnd he]
    | word :: t :: ts =>
      simp only [List.cons_append, List.tail_cons, readCondition]
      split
      · next ht =>
        have hword : word.kind = .identifier := by
          exact kind_of_isWord hif
        have hrest : Balanced (kinds (t :: ts)) := by
          rw [kinds_cons, hword] at hb
          exact hb.of_append (a := [.identifier]) rfl
        obtain ⟨found, close, after, hf, -⟩ := (@exists_breakAtClose .round) (by simp) (by rw [ht]; rfl) hrest
        rw [hf, breakAtClose_append_right hf]
        cases found <;> rfl
      · rfl
  · rfl

/-- A body is read on its lines. -/
theorem readBody_append (hb : Balanced (kinds line)) (he : atLineEnd rest = true) :
    readBody source (line ++ rest) = (readBody source line).map fun (body, after) => (body, after ++ rest) := by
  cases line with
  | nil =>
    cases rest with
    | nil => rfl
    | cons t rest => simp [readBody, head_of_atLineEnd he]
  | cons t ts =>
    simp only [List.cons_append, readBody]
    split
    · next ht =>
      obtain ⟨found, close, after, hf, -⟩ := (@exists_breakAtClose .brace) (by simp) (by rw [ht]; rfl) hb
      rw [hf, breakAtClose_append_right hf]
      simp only [atLineEnd_append he]
      split
      · rw [Option.map_map]
        rfl
      · rfl
    · rfl

/-- A declaration is read from its own line. -/
theorem readDeclaration_append (hb : Balanced (kinds line)) (hne : line ≠ [])
    (hk : ∀ t, line.head? = some t → t.kind = .identifier) (he : atLineEnd rest = true) :
    readDeclaration source (line ++ rest) = (readDeclaration source line).map fun (d, after) => (d, after ++ rest) := by
  unfold readDeclaration
  rw [readHead_append he hne]
  rcases hh : readHead line with _ | ⟨head, after⟩
  · rfl
  · obtain ⟨taken, rfl, htaken⟩ := readHead_cases hh
    have hafter : Balanced (kinds after) := by
      rw [kinds_append] at hb
      refine hb.of_append (htaken.balanced fun t ht => hk t ?_)
      rw [List.head?_append, ht]
      rfl
    have hloop : (after ++ rest).head?.any (·.kind = .bracketOpen) = after.head?.any (·.kind = .bracketOpen) := by
      cases after with
      | nil =>
        cases rest with
        | nil => rfl
        | cons t rest => simp [head_of_atLineEnd he]
      | cons t ts => rfl
    simp only [Option.map_some, hloop, startsLoop_append he, breakLine_append_right hafter he,
      readOptionalCondition_append hafter he]
    split
    · rfl
    · rcases hc : readOptionalCondition source after with _ | ⟨condition, last⟩
      · rfl
      · obtain ⟨-, taken', hlast, htaken'⟩ := (@holds_readOptionalCondition _ after) hc (List.nil_append _).symm hafter
        have hbody : Balanced (kinds last) := by
          rw [hlast, kinds_append] at hafter
          exact hafter.of_append htaken'
        simp only [Option.map_some, readBody_append hbody he, Option.map_map]
        rfl

/-- The kinds of statements that are read as declarations. -/
def StatementKind.isDeclared (kind : StatementKind) : Bool := kind = .resource || kind = .module

/-- Nothing is told of a line by what follows, unless a keyword ends it and a literal follows on the next line. -/
theorem opaqueDeclaration_append (he : atLineEnd rest = true) (hne : line ≠ []) (kind : StatementKind)
    (hnext : kind.isDeclared = true → line.tail = [] → literalAt rest.tail = none) :
    opaqueDeclaration kind (line ++ rest) = opaqueDeclaration kind line := by
  match line with
  | [] => exact absurd rfl hne
  | [keyword] =>
    cases rest with
    | nil => rfl
    | cons t rest =>
      have ht := head_of_atLineEnd he
      have hliteral : kind.isDeclared = true → literalAt rest = none := fun hk => hnext hk rfl
      have hnil : literalAt [] = none := rfl
      cases kind with
      | resource | module => simp [opaqueDeclaration, ht, hliteral rfl, hnil]
      | _ => simp [opaqueDeclaration, ht]
  | keyword :: name :: line =>
    have htarget : (literalAt (line ++ rest)).map (·.1) = (literalAt line).map (·.1) := by
      rw [literalAt_append he, Option.map_map]
      rfl
    cases kind <;>
      simp only [List.cons_append, opaqueDeclaration, List.drop_succ_cons, List.drop_zero, htarget,
        assignsLoop_append he]

/-- What can be told of any other line is told by the line alone. -/
theorem own_opaqueDeclaration (he : atLineEnd rest = true) (hne : line ≠ []) (kind : StatementKind) :
    (opaqueDeclaration kind (line ++ rest)).own = (opaqueDeclaration kind line).own := by
  match line with
  | [] => exact absurd rfl hne
  | [keyword] =>
    cases rest with
    | nil => rfl
    | cons t rest =>
      -- a literal on the next line belongs to no symbol
      have ht := head_of_atLineEnd he
      cases kind <;> simp [opaqueDeclaration, Declaration.own, ht]
  | keyword :: name :: line =>
    rw [opaqueDeclaration_append he hne kind fun _ h => absurd h (List.cons_ne_nil _ _)]

/-- What a line declares is read from the line alone, as far as it is where the line is no declaration. -/
theorem readStatementBody_append {α : Type} (part : Declaration → α) (hb : Balanced (kinds line))
    (he : atLineEnd rest = true)
    (hundeclared : line ≠ [] →
      part (opaqueDeclaration (kindAt line) (line ++ rest)) = part (opaqueDeclaration (kindAt line) line)) :
    part (readStatementBody source (line ++ rest)).1 = part (readStatementBody source line).1 := by
  have hkind := kindAt_append he line
  unfold readStatementBody
  simp only [hkind]
  split
  · next hk =>
    obtain ⟨t, ts, rfl, ht⟩ := exists_keyword hk
    have hname : ∀ u, (t :: ts).head? = some u → u.kind = .identifier := by
      intro u hu
      rwa [← Option.some.inj hu]
    rw [readDeclaration_append hb (List.cons_ne_nil _ _) hname he]
    rcases readDeclaration source (t :: ts) with _ | ⟨d, after⟩
    · exact hundeclared (List.cons_ne_nil _ _)
    · rfl
  · cases line with
    | nil => rfl
    | cons t ts => exact hundeclared (List.cons_ne_nil _ _)

/-- What a line declares by its own tokens is read from the line alone. -/
theorem own_readStatementBody (hb : Balanced (kinds line)) (he : atLineEnd rest = true) :
    (readStatementBody source (line ++ rest)).1.own = (readStatementBody source line).1.own :=
  readStatementBody_append Declaration.own hb he fun hne => own_opaqueDeclaration he hne _

end Append

/-- Newlines are skipped up to the next other token, whatever follows that. -/
theorem skipNewlines_append {ts : List Token} (h : skipNewlines ts ≠ []) :
    skipNewlines (ts ++ rest) = skipNewlines ts ++ rest := by
  obtain ⟨blank, hblank, hnl⟩ := exists_newlines ts
  obtain ⟨u, us, hs⟩ := List.exists_cons_of_ne_nil h
  have hu := head_skipNewlines hs
  rw [hs] at hblank ⊢
  rw [hblank, List.append_assoc]
  unfold skipNewlines
  rw [List.dropWhile_append_of_pos fun t ht => decide_eq_true (hnl t ht)]
  simp [hu]

/-- Decorators are read from the tokens of their statement, if a line comes after them or nothing follows. -/
theorem readDecorators_append {toks : List Token} (hb : Balanced (kinds toks)) (he : atLineEnd rest = true)
    (hne : (readDecorators source toks).2 = [] → rest = []) :
    readDecorators source (toks ++ rest) = ((readDecorators source toks).1, (readDecorators source toks).2 ++ rest) := by
  fun_induction readDecorators source toks with
  | case1 =>
    obtain rfl := hne rfl
    rw [List.append_nil, readDecorators]
  | case2 t ts hat _ line others ih =>
    have hbreak : breakLine (t :: (ts ++ rest)) = (line.1, line.2 ++ rest) := breakLine_append_right hb he
    obtain ⟨hl, hr⟩ := balanced_breakLine hb
    have hskip : skipNewlines (line.2 ++ rest) = skipNewlines line.2 ++ rest := by
      rcases Decidable.em (skipNewlines line.2 = []) with hs | hs
      · have hnil : others.2 = [] := by
          change (readDecorators source (skipNewlines line.2)).2 = []
          rw [hs, readDecorators]
        rw [hne hnil, List.append_nil, List.append_nil]
      · exact skipNewlines_append hs
    obtain ⟨blank, hblank, hnl⟩ := exists_newlines line.2
    have hrest : Balanced (kinds (skipNewlines line.2)) := by
      rw [hblank, kinds_append] at hr
      exact hr.of_append (balanced_newlines hnl)
    rw [List.cons_append, readDecorators, dif_pos hat]
    simp only [hbreak, hskip]
    rw [ih hrest hne]
  | case3 t ts hat => rw [List.cons_append, readDecorators, dif_neg hat]

/-- Decorators with no line after them go on in what follows. -/
theorem length_readDecorators_append {toks : List Token} (hb : Balanced (kinds toks)) (he : atLineEnd rest = true)
    (hne : toks ≠ []) (hrest : rest ≠ []) (h : (readDecorators source toks).2 = []) :
    (readDecorators source (toks ++ rest)).2.length < rest.length := by
  fun_induction readDecorators source toks with
  | case1 => exact absurd rfl hne
  | case2 t ts hat _ line others ih =>
    have hbreak : breakLine (t :: (ts ++ rest)) = (line.1, line.2 ++ rest) := breakLine_append_right hb he
    obtain ⟨hl, hr⟩ := balanced_breakLine hb
    obtain ⟨blank, hblank, hnl⟩ := exists_newlines line.2
    rw [List.cons_append, readDecorators, dif_pos hat]
    simp only [hbreak]
    rcases Decidable.em (skipNewlines line.2 = []) with hs | hs
    · -- the newlines after the decorators go on in what follows
      obtain ⟨v, rest, rfl⟩ := List.exists_cons_of_ne_nil hrest
      have hskip : skipNewlines (line.2 ++ v :: rest) = skipNewlines rest := by
        rw [hs, List.append_nil] at hblank
        rw [hblank, skipNewlines, List.dropWhile_append_of_pos fun t ht => decide_eq_true (hnl t ht),
          List.dropWhile_cons, if_pos (decide_eq_true (head_of_atLineEnd he))]
        rfl
      have h₁ := length_readDecorators_le source (skipNewlines rest)
      have h₂ := length_skipNewlines_le rest
      rw [hskip, List.length_cons]
      omega
    · have hbalanced : Balanced (kinds (skipNewlines line.2)) := by
        rw [hblank, kinds_append] at hr
        exact hr.of_append (balanced_newlines hnl)
      rw [skipNewlines_append hs]
      exact ih hbalanced hs h
  | case3 => exact absurd h (List.cons_ne_nil _ _)

/-- What is read after the decorators starts a line, if the statement ends where other tokens follow. -/
theorem readDecorators_ne_nil {first : Token} {body : List Token} (hb : Balanced (kinds (first :: body)))
    (he : atLineEnd rest = true) (hend : (readStatement source first (body ++ rest)).2 = rest)
    (h : (readDecorators source (first :: body)).2 = []) : rest = [] := by
  rcases Decidable.em (rest = []) with hrest | hrest
  · exact hrest
  · exfalso
    have hlen := length_readDecorators_append hb he (List.cons_ne_nil _ _) hrest h
    have hline : (breakLine (readDecorators source (first :: (body ++ rest))).2).2 = rest := by
      rw [← readStatementBody_snd source]
      exact hend
    have hle := length_breakLine_le (readDecorators source (first :: (body ++ rest))).2
    rw [hline] at hle
    rw [List.cons_append] at hlen
    omega

section Statement

variable {first : Token} {body : List Token} (hb : Balanced (kinds (first :: body))) (he : atLineEnd rest = true)
  (hne : (readDecorators source (first :: body)).2 = [] → rest = [])
include hb he hne

/-- Decorators are read on their lines. -/
theorem readDecorators_statement : readDecorators source (first :: (body ++ rest)) =
    ((readDecorators source (first :: body)).1, (readDecorators source (first :: body)).2 ++ rest) :=
  readDecorators_append hb he hne

/-- A statement goes on after its own tokens where it does so alone. -/
theorem snd_readStatement_append :
    (readStatement source first (body ++ rest)).2 = (readStatement source first body).2 ++ rest := by
  change (readStatementBody source (readDecorators source (first :: (body ++ rest))).2).2 =
    (readStatementBody source (readDecorators source (first :: body)).2).2 ++ rest
  rw [readStatementBody_snd, readStatementBody_snd, readDecorators_statement hb he hne,
    breakLine_append_right (balanced_readDecorators hb) he]

/-- A statement takes the tokens that it takes alone. -/
theorem taken_readStatement_append :
    (body ++ rest).take ((body ++ rest).length - (readStatement source first (body ++ rest)).2.length) =
      body.take (body.length - (readStatement source first body).2.length) := by
  rw [snd_readStatement_append hb he hne, List.length_append, List.length_append, Nat.add_sub_add_right,
    List.take_append_of_le_length (Nat.sub_le ..)]

/-- A statement says what is read from its own tokens, and stands there. -/
theorem own_readStatement_append :
    (readStatement source first (body ++ rest)).1.own = (readStatement source first body).1.own := by
  rw [own_readStatement, own_readStatement, taken_readStatement_append hb he hne,
    readDecorators_statement hb he hne, kindAt_append he, own_readStatementBody (balanced_readDecorators hb) he]

/-- A statement is the one that is read from its own tokens, unless a keyword alone ends these and a literal comes next. -/
theorem fst_readStatement_append
    (hnext : (kindAt (readDecorators source (first :: body)).2).isDeclared = true →
      (readDecorators source (first :: body)).2.tail = [] → literalAt rest.tail = none) :
    (readStatement source first (body ++ rest)).1 = (readStatement source first body).1 := by
  have hbody : (readStatementBody source ((readDecorators source (first :: body)).2 ++ rest)).1 =
      (readStatementBody source (readDecorators source (first :: body)).2).1 :=
    readStatementBody_append id (balanced_readDecorators hb) he fun hline => opaqueDeclaration_append he hline _ hnext
  rw [fst_readStatement, fst_readStatement, taken_readStatement_append hb he hne, readDecorators_statement hb he hne,
    kindAt_append he, hbody]

/-- A statement says the same before other statements. -/
theorem sense_readStatement_append :
    (readStatement source first (body ++ rest)).1.sense = (readStatement source first body).1.sense := by
  rw [← Statement.sense_own, own_readStatement_append hb he hne, Statement.sense_own]

end Statement

/-- Tokens that are read as one statement with nothing after it. Without a line after the decorators it is the last
one. -/
structure IsSingle (source : String) (first : Token) (others : List Token) (last : Prop) : Prop where
  balanced : Balanced (kinds (first :: others))
  rest : (readStatement source first others).2 = []
  declared : (readDecorators source (first :: others)).2 = [] → last

namespace IsSingle

variable {source : String} {first : Token} {others rest : List Token}

/-- What follows from the end of a single statement follows. -/
theorem imp {last last' : Prop} (h : IsSingle source first others last) (hl : last → last') :
    IsSingle source first others last' :=
  ⟨h.balanced, h.rest, fun hd => hl (h.declared hd)⟩

/-- At the end of its line the statement is read whole, and says what it says alone. -/
theorem append (h : IsSingle source first others (rest = [])) (he : atLineEnd rest = true) :
    (readStatement source first (others ++ rest)).2 = rest ∧
      (readStatement source first (others ++ rest)).1.sense = (readStatement source first others).1.sense := by
  refine ⟨?_, sense_readStatement_append h.balanced he h.declared⟩
  rw [snd_readStatement_append h.balanced he h.declared, h.rest, List.nil_append]

end IsSingle

end BicepMigration.Template
