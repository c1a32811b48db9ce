import BicepMigration.Proofs.Template.UsePosition

/-!
# What a check sees of names

A check for uses goes over the tokens once. Of each name that is one of the symbols it sees the members that follow,
whether the name is a use, and whether it comes after the word `resource`. All of this depends on what the tokens are,
not on where they stand, and of the tokens before a name only a view is left. So two runs of tokens cannot be told apart
where they show the same and leave every view alike, whatever is written around them.
-/

namespace BicepMigration.Template

open Text

/-- A token without its place: what it is and, if it is a name, the name. -/
@[ext]
structure Spelling where
  kind : TokenKind
  name : String
  deriving DecidableEq

/-- The spelling of a text of a kind. -/
def Spelling.ofText (kind : TokenKind) (text : String) : Spelling := ⟨kind, if kind = .identifier then text else ""⟩

/-- A token without its place. -/
def Token.spelling (t : Token) : Spelling := .ofText t.kind t.text

/-- A lexeme without the text before it. -/
def Lexeme.spelling (l : Lexeme) : Spelling := .ofText l.kind (String.ofList l.text)

/-- Tokens without their places. -/
abbrev spellings (toks : List Token) : List Spelling := toks.map Token.spelling

/-- Lexemes without the texts before them. -/
abbrev spelled (ls : List Lexeme) : List Spelling := ls.map Lexeme.spelling

@[simp] theorem Token.spelling_kind (t : Token) : t.spelling.kind = t.kind := rfl

@[simp] theorem Lexeme.spelling_kind (l : Lexeme) : l.spelling.kind = l.kind := rfl

/-- The spelling of an identifier has its name. -/
theorem Token.spelling_name {t : Token} (h : t.kind = .identifier) : t.spelling.name = t.text := if_pos h

/-- A word is spelled by its name. -/
theorem Token.spelling_of_isWord {t : Token} {word : String} (h : t.isWord word = true) :
    t.spelling = ⟨.identifier, word⟩ := by
  simp only [Token.isWord, Bool.and_eq_true, decide_eq_true_eq] at h
  simp [Token.spelling, Spelling.ofText, h]

/-- Everything else is spelled by what it is. -/
theorem Token.spelling_of_kind {t : Token} {kind : TokenKind} (h : t.kind = kind) (hk : kind ≠ .identifier) :
    t.spelling = ⟨kind, ""⟩ := by
  simp [Token.spelling, Spelling.ofText, h, hk]

/-- Tokens are spelled as their lexemes. -/
theorem spellings_tokensAt (here : Cursor) (ls : List Lexeme) : spellings (tokensAt here ls) = spelled ls := by
  induction ls generalizing here with
  | nil => rfl
  | cons l ls ih => exact congrArg (l.spelling :: ·) (ih _)

@[simp] theorem spelled_regap (gap : List Char) (ls : List Lexeme) : spelled (regap gap ls) = spelled ls := by
  cases ls <;> rfl

/-- What the tokens before a name say about it. -/
structure View where
  /-- What the last token says. -/
  side : Side
  /-- The word `resource` stands before, apart from separators. -/
  announced : Bool
  deriving DecidableEq

namespace View

/-- Nothing comes before. -/
def start : View := ⟨.key, false⟩

/-- Anything may come, but no key. -/
def value : View := ⟨.other, false⟩

/-- The view after one more token. -/
def after (view : View) (t : Spelling) : View :=
  ⟨Side.after false t.kind t.name, t = ⟨.identifier, "resource"⟩ || t.kind.separates && view.announced⟩

/-- The view after more tokens. -/
def past (view : View) (ts : List Spelling) : View := ts.foldl after view

variable {view : View} {t : Spelling}

@[simp] theorem past_nil : view.past [] = view := rfl

@[simp] theorem past_cons {ts : List Spelling} : view.past (t :: ts) = (view.after t).past ts := rfl

@[simp] theorem past_append {a b : List Spelling} : view.past (a ++ b) = (view.past a).past b := List.foldl_append

/-- After a separator a key may stand. -/
theorem after_of_separates (h : t.kind.separates = true) : view.after t = ⟨.key, view.announced⟩ := by
  have hname : t.kind ≠ .identifier := fun hk => by simp [hk, TokenKind.separates] at h
  have hdot : t.kind ≠ .dot := fun hk => by simp [hk, TokenKind.separates] at h
  simp [after, Side.after, h, hdot, hname, Spelling.ext_iff]

/-- After a close a value may stand. -/
theorem after_of_closes (h : t.kind.closes = true) : view.after t = .value := by
  obtain ⟨kind, name⟩ := t
  cases kind with
  | holeEnd | braceClose | bracketClose | parenClose => rfl
  | _ => cases h

/-- After a colon a value stands. -/
theorem after_of_colon (h : t.kind = .colon) : view.after t = .value := by
  simp [after, Side.after, h, TokenKind.separates, value, Spelling.ext_iff]

/-- After an opening brace a key stands. -/
theorem after_of_brace (h : t.kind = .braceOpen) : view.after t = .start := by
  simp [after, Side.after, h, TokenKind.separates, start, Spelling.ext_iff]

/-- After an opening bracket a value stands. -/
theorem after_of_bracket (h : t.kind = .bracketOpen) : view.after t = .value := by
  simp [after, Side.after, h, TokenKind.separates, value, Spelling.ext_iff]

end View

/-- The members that are accessed by the next tokens. -/
def membersAfter : List Spelling → List String
  | point :: name :: rest =>
    if point.kind = .dot && name.kind = .identifier then name.name :: membersAfter rest else []
  | _ => []

/-- A colon stands first. -/
def startsWithColon (ts : List Spelling) : Bool := ts.head?.any (·.kind = .colon)

/-- A name that is one of the symbols, as it is seen. -/
structure Sight where
  symbol : String
  /-- The members that are accessed through it, outermost first. -/
  path : List String
  /-- The name is a use. -/
  used : Bool
  /-- The name comes after the word `resource`, apart from separators, and is no key. -/
  announced : Bool
  deriving DecidableEq

/-- What is seen of a token, given the tokens after it. -/
def sight? (symbols : List String) (view : View) (t : Spelling) (rest : List Spelling) : Option Sight :=
  let used := view.side.admits (startsWithColon rest)
  let announced := view.announced && !startsWithColon rest
  if t.kind = .identifier && symbols.contains t.name && (used || announced) then
    some ⟨t.name, membersAfter rest, used, announced⟩
  else none

/-- What is seen of tokens, in order. -/
def sights (symbols : List String) (view : View) : List Spelling → List Sight
  | [] => []
  | t :: ts => (sight? symbols view t ts).toList ++ sights symbols (view.after t) ts

/-- What comes first belongs to no name before it: it is no colon, and no access goes on there. -/
def Detached (ts : List Spelling) : Prop := ∀ t, ts.head? = some t → t.kind ≠ .identifier ∧ t.kind ≠ .dot ∧ t.kind ≠ .colon

section Sights

variable {symbols : List String} {view : View} {t : Spelling} {ts : List Spelling}

@[simp] theorem sights_nil : sights symbols view [] = [] := rfl

/-- What is seen of the first spelling comes before what is seen of the others. -/
theorem sights_cons : sights symbols view (t :: ts) = (sight? symbols view t ts).toList ++ sights symbols (view.after t) ts :=
  rfl

/-- Of a token that is no name nothing is seen. -/
theorem sights_cons_of_kind (h : t.kind ≠ .identifier) : sights symbols view (t :: ts) = sights symbols (view.after t) ts := by
  simp [sights_cons, sight?, h]

/-- Of tokens without names nothing is seen. -/
theorem sights_of_kind (h : ∀ t ∈ ts, t.kind ≠ .identifier) : sights symbols view ts = [] := by
  induction ts generalizing view with
  | nil => rfl
  | cons t ts ih =>
    rw [sights_cons_of_kind (h t List.mem_cons_self)]
    exact ih fun u hu => h u (List.mem_cons_of_mem _ hu)

/-- Of tokens without names that come first nothing is seen. -/
theorem sights_append_of_kind {a b : List Spelling} (h : ∀ t ∈ a, t.kind ≠ .identifier) :
    sights symbols view (a ++ b) = sights symbols (view.past a) b := by
  induction a generalizing view with
  | nil => rfl
  | cons t a ih =>
    rw [List.cons_append, sights_cons_of_kind (h t List.mem_cons_self), View.past_cons]
    exact ih fun u hu => h u (List.mem_cons_of_mem _ hu)

/-- Detached spellings do not start with a colon. -/
theorem Detached.startsWithColon {b : List Spelling} (h : Detached b) : startsWithColon b = false := by
  cases b with
  | nil => rfl
  | cons t b => simpa [Template.startsWithColon] using (h t rfl).2.2

/-- Members go on no further than to what is detached. -/
theorem membersAfter_append {a b : List Spelling} (h : Detached b) : membersAfter (a ++ b) = membersAfter a := by
  fun_induction membersAfter a with
  | case1 point name rest hk ih => rw [List.cons_append, List.cons_append, membersAfter, if_pos hk, ih]
  | case2 point name rest hk => rw [List.cons_append, List.cons_append, membersAfter, if_neg hk]
  | case3 a hne =>
    cases a with
    | nil =>
      cases b with
      | nil => rfl
      | cons t b =>
        have ht := (h t rfl).2.1
        cases b <;> simp [membersAfter, ht]
    | cons t a =>
      cases a with
      | nil =>
        cases b with
        | nil => rfl
        | cons u b => simp [membersAfter, (h u rfl).1]
      | cons u a => exact absurd rfl (hne t u a)

/-- What is detached is seen by itself. -/
theorem sights_append {a b : List Spelling} (h : Detached b) :
    sights symbols view (a ++ b) = sights symbols view a ++ sights symbols (view.past a) b := by
  induction a generalizing view with
  | nil => rfl
  | cons t a ih =>
    have hcolon : startsWithColon (a ++ b) = startsWithColon a := by
      cases a with
      | nil => exact h.startsWithColon
      | cons u a => rfl
    rw [List.cons_append, sights_cons, sights_cons, ih, View.past_cons, List.append_assoc]
    simp only [sight?, hcolon, membersAfter_append h]

/-- Brackets show what is in them. -/
theorem sights_enclosed {opening closing : Spelling} {inside : List Spelling} (ho : opening.kind ≠ .identifier)
    (hc : closing.kind.closes = true) : sights symbols view (opening :: (inside ++ [closing])) =
      sights symbols (view.after opening) inside := by
  have hkind : closing.kind ≠ .identifier ∧ closing.kind ≠ .dot ∧ closing.kind ≠ .colon := by
    refine ⟨?_, ?_, ?_⟩ <;> intro hk <;> simp [hk, TokenKind.closes] at hc
  have hdetached : Detached [closing] := fun u hu => Option.some.inj hu ▸ hkind
  rw [sights_cons_of_kind ho, sights_append hdetached, sights_cons_of_kind hkind.1, sights_nil, List.append_nil]

/-- It makes no difference whether a key could stand first, if no symbol stands there before a colon. -/
theorem sights_of_side {announced : Bool} (h : startsWithColon ts = true → t.kind = .identifier → t.name ∉ symbols) :
    sights symbols ⟨.other, announced⟩ (t :: ts) = sights symbols ⟨.key, announced⟩ (t :: ts) := by
  have hafter : View.after ⟨.other, announced⟩ t = View.after ⟨.key, announced⟩ t := rfl
  have hsight : sight? symbols ⟨.other, announced⟩ t ts = sight? symbols ⟨.key, announced⟩ t ts := by
    unfold sight?
    cases hc : startsWithColon ts with
    | false => rfl
    | true =>
      by_cases hk : t.kind = .identifier
      · simp [hk, h hc hk]
      · simp [hk]
  rw [sights_cons, sights_cons, hafter, hsight]

end Sights

/-- Two runs of tokens show the same, and they leave every view alike. -/
def Alike (symbols : List String) (a b : List Spelling) : Prop :=
  ∀ view, sights symbols view a = sights symbols view b ∧ View.past view a = View.past view b

section Alike

variable {symbols : List String} {a b c d : List Spelling}

/-- Spellings are alike to themselves. -/
theorem Alike.refl (symbols : List String) (a : List Spelling) : Alike symbols a a := fun _ => ⟨rfl, rfl⟩

/-- Equal spellings are alike. -/
theorem Alike.of_eq (h : a = b) : Alike symbols a b := h ▸ .refl symbols a

/-- Two runs are alike together if what follows is detached. -/
theorem Alike.append (h : Alike symbols a b) (h' : Alike symbols c d) (hc : Detached c) (hd : Detached d) :
    Alike symbols (a ++ c) (b ++ d) := fun view => by
  rw [sights_append hc, sights_append hd, View.past_append, View.past_append, (h view).1, (h view).2]
  exact ⟨congrArg (_ ++ ·) (h' _).1, (h' _).2⟩

/-- Tokens without names are alike if they leave every view alike, whatever follows. -/
theorem alike_of_kind (hc : ∀ t ∈ c, t.kind ≠ .identifier) (hd : ∀ t ∈ d, t.kind ≠ .identifier)
    (hpast : ∀ view : View, view.past c = view.past d) (h : Alike symbols a b) : Alike symbols (c ++ a) (d ++ b) :=
  fun view => by
    rw [sights_append_of_kind hc, sights_append_of_kind hd, View.past_append, View.past_append, hpast]
    exact h _

/-- Brackets are alike if they show the same. -/
theorem Alike.enclose {opening closing closing' : Spelling} (ho : opening.kind ≠ .identifier)
    (hc : closing.kind.closes = true) (hc' : closing'.kind.closes = true)
    (h : ∀ view : View, sights symbols (view.after opening) a = sights symbols (view.after opening) b) :
    Alike symbols (opening :: (a ++ [closing])) (opening :: (b ++ [closing'])) := fun view => by
  rw [sights_enclosed ho hc, sights_enclosed ho hc']
  exact ⟨h view, by simp [View.after_of_closes hc, View.after_of_closes hc']⟩

end Alike

end BicepMigration.Template
