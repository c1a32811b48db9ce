import BicepMigration.Proofs.Template.Nesting
import BicepMigration.Template.Statement

/-!
# Tokens in other places

What is read from tokens depends on their kinds and texts, and on the text that fragments are cut out of. So the
same tokens in other places, or in another template, are read the same way, apart from the places. A value or a
statement is compared without them. Main statement: a statement whose tokens stand elsewhere says the same.
-/

namespace BicepMigration.Template

/-- Separators hold no element. -/
theorem elements_of_nil {toks : List Token} (h : toks.dropWhile (·.kind.separates) = []) : elements toks = [] := by
  unfold elements
  split
  · rfl
  · next hcons =>
    rw [h] at hcons
    cases hcons

/-- The first element goes up to the next separator outside brackets. -/
theorem elements_of_cons {toks ts : List Token} {t : Token} (h : toks.dropWhile (·.kind.separates) = t :: ts) :
    elements toks = (t :: (breakOutside TokenKind.separates (t.kind.depthAfter 0) ts).1) ::
      elements (breakOutside TokenKind.separates (t.kind.depthAfter 0) ts).2 := by
  rw [elements]
  split
  · next hnil =>
    rw [h] at hnil
    cases hnil
  · next t' ts' hcons =>
    rw [h] at hcons
    obtain ⟨rfl, rfl⟩ := List.cons.inj hcons
    rfl

/-- Tokens are put in other places, perhaps of another template. -/
structure Relocates (g : Token → Token) : Prop where
  kind : ∀ t, (g t).kind = t.kind
  text : ∀ t, (g t).text = t.text

/-- Tokens are exchanged for others that are read alike. Reading does not look at the text of a string of many lines. -/
structure Resembles (g : Token → Token) : Prop where
  kind : ∀ t, (g t).kind = t.kind
  text : ∀ t, t.kind ≠ .multilineString → (g t).text = t.text

variable {g : Token → Token}

/-- Tokens that are only moved resemble the others. -/
theorem Relocates.resembles (h : Relocates g) : Resembles g := ⟨h.kind, fun t _ => h.text t⟩

namespace Resembles

/-- Tokens that resemble one another have equal texts, strings of several lines apart. -/
theorem text_of_kind (h : Resembles g) {t : Token} {kind : TokenKind} (hk : t.kind = kind)
    (hne : kind ≠ .multilineString) : (g t).text = t.text := h.text t (hk ▸ hne)

/-- They are the same words. -/
theorem isWord (h : Resembles g) (t : Token) (word : String) : (g t).isWord word = t.isWord word := by
  unfold Token.isWord
  rw [h.kind]
  by_cases hk : t.kind = .identifier
  · rw [h.text_of_kind hk (by decide)]
  · simp [hk]

theorem head?_any (h : Resembles g) (p : TokenKind → Bool) (toks : List Token) :
    (toks.map g).head?.any (fun t => p t.kind) = toks.head?.any fun t => p t.kind := by
  cases toks with
  | nil => rfl
  | cons t toks => exact congrArg p (h.kind t)

theorem breakOutside (h : Resembles g) (stop : TokenKind → Bool) (depth : Nat) (ts : List Token) :
    breakOutside stop depth (ts.map g) =
      ((breakOutside stop depth ts).1.map g, (breakOutside stop depth ts).2.map g) := by
  induction ts generalizing depth with
  | nil => rfl
  | cons t ts ih =>
    rw [List.map_cons, Template.breakOutside, Template.breakOutside, h.kind, ih]
    split <;> rfl

theorem breakAtClose (h : Resembles g) (depth : Nat) (ts : List Token) :
    breakAtClose depth (ts.map g) =
      (breakAtClose depth ts).map fun (found, close, rest) => (found.map g, g close, rest.map g) := by
  induction ts generalizing depth with
  | nil => rfl
  | cons t ts ih =>
    rw [List.map_cons, Template.breakAtClose, Template.breakAtClose, h.kind, ih]
    split
    · rfl
    · rw [Option.map_map, Option.map_map]
      rfl

theorem dropWhile (h : Resembles g) (p : TokenKind → Bool) (ts : List Token) :
    (ts.map g).dropWhile (fun t => p t.kind) = (ts.dropWhile fun t => p t.kind).map g := by
  rw [List.dropWhile_map]
  simp only [Function.comp_def, h.kind]

theorem elements (h : Resembles g) (ts : List Token) : elements (ts.map g) = (elements ts).map (List.map g) := by
  fun_induction Template.elements ts with
  | case1 ts hnil => rw [elements_of_nil (by rw [h.dropWhile TokenKind.separates, hnil]; rfl), List.map_nil]
  | case2 ts t others hcons _ _ parts ih =>
    have hg : (ts.map g).dropWhile (·.kind.separates) = g t :: others.map g := by
      rw [h.dropWhile TokenKind.separates, hcons]
      rfl
    rw [elements_of_cons hg, h.kind, h.breakOutside]
    exact congrArg _ ih

theorem literalAt (h : Resembles g) (ts : List Token) :
    literalAt (ts.map g) = (literalAt ts).map fun (text, rest) => (text, rest.map g) := by
  match ts with
  | [] => rfl
  | [t] => rfl
  | [opening, middle] =>
    simp only [List.map_cons, List.map_nil, Template.literalAt, h.kind]
    split
    · split
      · rfl
      · split <;> rfl
    · rfl
  | opening :: middle :: closing :: rest =>
    simp only [List.map_cons, Template.literalAt, h.kind]
    split
    · split
      · rfl
      · split
        · next hmiddle =>
          rw [h.text_of_kind hmiddle (by decide)]
          split
          · rw [Option.map_map]
            rfl
          · rfl
        · rfl
    · rfl

theorem afterString (h : Resembles g) (depth : Nat) (ts : List Token) :
    afterString depth (ts.map g) = (afterString depth ts).map (List.map g) := by
  induction ts generalizing depth with
  | nil => rfl
  | cons t ts ih =>
    rw [List.map_cons, Template.afterString, Template.afterString, h.kind, ih, ih, ih]
    split
    · rfl
    · split
      · split <;> rfl
      · rfl

/-- A property in another place, with the line of its key there. -/
theorem propertyAt (h : Resembles g) (ts : List Token) :
    propertyAt (ts.map g) = (propertyAt ts).map fun p =>
      ⟨p.key, p.quoted, (g p.value.1, p.value.2.map g), ((ts.map g).head?.map (·.line)).getD 0⟩ := by
  cases ts with
  | nil => rfl
  | cons t ts =>
    have hl := h.literalAt (t :: ts)
    rw [List.map_cons] at hl
    have hkey : (if t.kind = .identifier then some ((g t).text, ts.map g) else Template.literalAt (g t :: ts.map g)) =
        (if t.kind = .identifier then some (t.text, ts) else Template.literalAt (t :: ts)).map
          fun (key, rest) => (key, rest.map g) := by
      rw [hl]
      split
      · next ht => rw [h.text_of_kind ht (by decide), Option.map_some]
      · rfl
    simp only [List.map_cons, Template.propertyAt, h.kind, hkey]
    generalize (if t.kind = .identifier then some (t.text, ts) else Template.literalAt (t :: ts)) = found
    rcases found with _ | ⟨key, _ | ⟨colon, _ | ⟨first, others⟩⟩⟩
    · rfl
    · rfl
    · rfl
    · simp only [Option.map_some, List.map_cons, h.kind]
      split <;> rfl

theorem enclosed? (h : Resembles g) (ts : List Token) :
    enclosed? (ts.map g) = (enclosed? ts).map (List.map g) := by
  rw [Template.enclosed?, Template.enclosed?, h.breakAtClose]
  rcases Template.breakAtClose 0 ts with _ | ⟨found, close, rest⟩
  · rfl
  · cases rest <;> rfl

theorem startsWithWord (h : Resembles g) (word : String) (ts : List Token) :
    startsWithWord word (ts.map g) = startsWithWord word ts := by
  cases ts with
  | nil => rfl
  | cons t ts => exact h.isWord t word

theorem dropWord (h : Resembles g) (word : String) (ts : List Token) :
    dropWord word (ts.map g) = (dropWord word ts).map g := by
  unfold Template.dropWord
  rw [h.startsWithWord]
  split
  · rw [List.map_tail]
  · rfl

theorem startsLoop (h : Resembles g) (ts : List Token) : startsLoop (ts.map g) = startsLoop ts := by
  match ts with
  | [] => rfl
  | [_] => rfl
  | bracket :: word :: rest => simp only [List.map_cons, Template.startsLoop, h.kind, h.isWord]

theorem assignsLoop (h : Resembles g) (ts : List Token) : assignsLoop (ts.map g) = assignsLoop ts := by
  induction ts with
  | nil => rfl
  | cons t ts ih => rw [List.map_cons, Template.assignsLoop, Template.assignsLoop, h.kind, h.startsLoop, ih]

theorem atLineEnd (h : Resembles g) (ts : List Token) : atLineEnd (ts.map g) = atLineEnd ts := by
  cases ts with
  | nil => rfl
  | cons t ts => simp only [List.map_cons, Template.atLineEnd, h.kind]

theorem kindAt (h : Resembles g) (ts : List Token) : kindAt (ts.map g) = kindAt ts := by
  cases ts with
  | nil => rfl
  | cons t ts => simp only [List.map_cons, Template.kindAt, h.isWord]

theorem breakLine (h : Resembles g) (ts : List Token) :
    breakLine (ts.map g) = ((breakLine ts).1.map g, (breakLine ts).2.map g) :=
  h.breakOutside _ 0 ts

theorem skipNewlines (h : Resembles g) (ts : List Token) : skipNewlines (ts.map g) = (skipNewlines ts).map g :=
  h.dropWhile (fun k => decide (k = .newline)) ts

theorem readHead (h : Resembles g) (ts : List Token) :
    readHead (ts.map g) = (readHead ts).map fun (head, rest) => (head, rest.map g) := by
  match ts with
  | [] => rfl
  | [_] => rfl
  | keyword :: name :: rest =>
    simp only [List.map_cons, Template.readHead, h.kind, h.literalAt]
    split
    · next hname =>
      rw [h.text_of_kind hname (by decide)]
      rcases Template.literalAt rest with _ | ⟨target, after⟩
      · rfl
      · simp only [Option.map_some, h.dropWord, h.startsWithWord]
        rcases Template.dropWord "existing" after with _ | ⟨equals, last⟩
        · rfl
        · simp only [List.map_cons, h.kind]
          split <;> rfl
    · rfl

theorem opaqueDeclaration (h : Resembles g) (kind : StatementKind) (ts : List Token) :
    opaqueDeclaration kind (ts.map g) = opaqueDeclaration kind ts := by
  match ts with
  | [] => cases kind <;> rfl
  | [_] => cases kind <;> rfl
  | keyword :: name :: rest =>
    have htarget : (Template.literalAt (rest.map g)).map (·.1) = (Template.literalAt rest).map (·.1) := by
      rw [h.literalAt, Option.map_map]
      rfl
    have hname : (if name.kind = .identifier then some (g name).text else none) =
        if name.kind = .identifier then some name.text else none := by
      split
      · next hk => rw [h.text_of_kind hk (by decide)]
      · rfl
    cases kind <;>
      simp only [List.map_cons, Template.opaqueDeclaration, List.drop_succ_cons, List.drop_zero, htarget, h.kind,
        hname, h.assignsLoop]

end Resembles

end BicepMigration.Template
