import BicepMigration.Proofs.Template.ReadUse
import BicepMigration.Proofs.Template.SoundSpans
import BicepMigration.Proofs.Template.Unplaced

/-!
# Roles of the tokens of a body

In a body every token is there for something: it separates properties or elements, it opens or closes an object or an
array, it belongs to a key, it stands between a key and its value, it spells a number, a truth value or null, or it
belongs to a fragment that is kept as text. What a token is there for is told from the tree of the body, by rules that
do not say how the tree was read. Main statements: the tokens of a body have roles in the tree that is read from them,
and there is only one way to give them roles in it.
-/

namespace BicepMigration.Template

open Text

/-- What a token of a body is there for. -/
inductive Role where
  /-- It stands between properties or elements, or before the first or after the last one. -/
  | separator
  /-- It opens or closes an object or an array. -/
  | bracket
  /-- It belongs to a key. -/
  | key
  /-- It stands between a key and its value. -/
  | colon
  /-- It spells a number, a truth value or null. -/
  | literal
  /-- It belongs to a fragment. -/
  | leaf (f : Fragment)
  deriving DecidableEq, Repr

/-- The fragment that a token of the role belongs to. -/
def Role.fragment? : Role → Option Fragment
  | .leaf f => some f
  | _ => none

/-- The same role for each of some tokens. -/
def Role.each (role : Role) (toks : List Token) : List Role := toks.map fun _ => role

/-- The fragment that a scalar is kept as. -/
def Value.leaf? : Value → Option Fragment
  | .string f | .interpolated f | .expression f => some f
  | _ => none

/-- A part of a tree. -/
inductive Branch where
  | value (v : Value)
  /-- What stands in the braces of an object. -/
  | entries (ps : ObjectLiteral)
  /-- What stands in the brackets of an array. -/
  | items (vs : List Value)

/-- The fragments of a part of a tree, in order. -/
def Branch.fragments : Branch → List Fragment
  | .value v => v.fragments
  | .entries ps => Value.fragments.entriesFragments ps
  | .items vs => Value.fragments.itemsFragments vs

/-- Tokens spell a number, a truth value or null. A minus is part of a number that it touches. -/
inductive SpellsPlain (source : String) : Value → List Token → Prop where
  | number {t : Token} : t.kind = .number →
      SpellsPlain source (.number (Fragment.ofTokens source t []).raw) [t]
  | negative {minus t : Token} : minus.kind = .operator → minus.text = "-" → t.kind = .number →
      minus.span.stop = t.span.start →
      SpellsPlain source (.number (Fragment.ofTokens source minus [t]).raw) [minus, t]
  | true {t : Token} : t.kind = .identifier → t.text = "true" → SpellsPlain source (.bool true) [t]
  | false {t : Token} : t.kind = .identifier → t.text = "false" → SpellsPlain source (.bool false) [t]
  | null {t : Token} : t.kind = .identifier → t.text = "null" → SpellsPlain source .null [t]

/-- Tokens have roles in a part of a tree. -/
inductive HasRoles (source : String) : Branch → List Token → List Role → Prop where
  | leaf {v : Value} {first : Token} {others : List Token} :
      v.leaf? = some (Fragment.ofTokens source first others) → IsElement (kinds (first :: others)) →
      HasRoles source (.value v) (first :: others)
        (Role.each (.leaf (Fragment.ofTokens source first others)) (first :: others))
  | literal {v : Value} {toks : List Token} : SpellsPlain source v toks →
      HasRoles source (.value v) toks (Role.each .literal toks)
  | object {ps : ObjectLiteral} {opening close : Token} {inside : List Token} {roles : List Role} :
      opening.kind = .braceOpen → close.kind = .braceClose → HasRoles source (.entries ps) inside roles →
      HasRoles source (.value (.object ps)) (opening :: (inside ++ [close])) (.bracket :: (roles ++ [.bracket]))
  | array {vs : List Value} {opening close : Token} {inside : List Token} {roles : List Role} :
      opening.kind = .bracketOpen → close.kind = .bracketClose → HasRoles source (.items vs) inside roles →
      HasRoles source (.value (.array vs)) (opening :: (inside ++ [close])) (.bracket :: (roles ++ [.bracket]))
  | noEntries {seps : List Token} : (∀ t ∈ seps, t.kind.separates = true) →
      HasRoles source (.entries []) seps (Role.each .separator seps)
  | entry {seps key toks rest : List Token} {colon : Token} {p : Property Value} {ps : ObjectLiteral}
      {roles others : List Role} :
      (∀ t ∈ seps, t.kind.separates = true) → IsKey key p.key p.quoted → colon.kind = .colon →
      HasRoles source (.value p.value) toks roles → (∀ t, rest.head? = some t → t.kind.separates = true) →
      HasRoles source (.entries ps) rest others →
      HasRoles source (.entries (p :: ps)) (seps ++ (key ++ colon :: (toks ++ rest)))
        (Role.each .separator seps ++ (Role.each .key key ++ .colon :: (roles ++ others)))
  | noItems {seps : List Token} : (∀ t ∈ seps, t.kind.separates = true) →
      HasRoles source (.items []) seps (Role.each .separator seps)
  | item {seps toks rest : List Token} {v : Value} {vs : List Value} {roles others : List Role} :
      (∀ t ∈ seps, t.kind.separates = true) → HasRoles source (.value v) toks roles →
      (∀ t, rest.head? = some t → t.kind.separates = true) → HasRoles source (.items vs) rest others →
      HasRoles source (.items (v :: vs)) (seps ++ (toks ++ rest)) (Role.each .separator seps ++ (roles ++ others))

section Shape

variable {source : String}

/-- The tokens of a value make an element; those between brackets are balanced. -/
def Branch.HasShape : Branch → List Token → Prop
  | .value _, toks => toks ≠ [] ∧ IsElement (kinds toks)
  | .entries _, toks | .items _, toks => Balanced (kinds toks)

/-- A value that is spelled plainly is an element. -/
theorem SpellsPlain.hasShape {v : Value} {toks : List Token} (h : SpellsPlain source v toks) :
    toks ≠ [] ∧ IsElement (kinds toks) := by
  cases h with
  | number hk | true hk _ | false hk _ | null hk _ =>
    rw [kinds_cons, hk]
    exact ⟨List.cons_ne_nil _ _, .single rfl rfl⟩
  | negative hminus _ hk _ =>
    rw [kinds_cons, kinds_cons, hminus, hk]
    exact ⟨List.cons_ne_nil _ _, (IsElement.single rfl rfl).append (b := [.number]) (.single rfl rfl)⟩

/-- Balanced tokens in the brackets of an object or an array make an element. -/
theorem isElement_brackets {opening close : Token} {inside : List Token} {bracket : Bracket}
    (ho : Nest.top.after opening.kind = some ⟨.code, [bracket]⟩)
    (hc : Nest.after ⟨.code, [bracket]⟩ close.kind = some .top) (hs : opening.kind.separates = false)
    (h : Balanced (kinds inside)) : IsElement (kinds (opening :: (inside ++ [close]))) := by
  rw [kinds_cons, kinds_append]
  exact .enclose ho h hc hs

/-- Tokens with roles have the shape of what they are read as. -/
theorem HasRoles.hasShape {b : Branch} {toks : List Token} {roles : List Role} (h : HasRoles source b toks roles) :
    b.HasShape toks := by
  induction h with
  | leaf _ he => exact ⟨List.cons_ne_nil _ _, he⟩
  | literal hs => exact hs.hasShape
  | object ho hc _ ih =>
    exact ⟨List.cons_ne_nil _ _, (@isElement_brackets _ _ _ .brace) (by rw [ho]; rfl) (by rw [hc]; rfl)
      (by rw [ho]; rfl) ih⟩
  | array ho hc _ ih =>
    exact ⟨List.cons_ne_nil _ _, (@isElement_brackets _ _ _ .square) (by rw [ho]; rfl) (by rw [hc]; rfl)
      (by rw [ho]; rfl) ih⟩
  | noEntries hs | noItems hs => exact balanced_separators hs
  | entry hs hk hc _ _ _ ihvalue ihrest =>
    obtain ⟨-, hvalue⟩ := ihvalue
    have hcolon : Balanced [TokenKind.colon] := rfl
    simp only [Branch.HasShape, kinds_append, kinds_cons, hc] at ihrest ⊢
    exact (balanced_separators hs).append (hk.isElement.balanced.append
      (hcolon.append (hvalue.balanced.append ihrest)))
  | item hs _ _ _ ihvalue ihrest =>
    obtain ⟨-, hvalue⟩ := ihvalue
    simp only [Branch.HasShape, kinds_append] at ihrest ⊢
    exact (balanced_separators hs).append (hvalue.balanced.append ihrest)

end Shape

section Uniqueness

variable {source : String} {a b x y : List Token}

/-- Separators before a token that is none end where that token stands. -/
theorem separators_inj (ha : ∀ t ∈ a, t.kind.separates = true) (hb : ∀ t ∈ b, t.kind.separates = true)
    (hx : ∀ t, x.head? = some t → t.kind.separates = false) (hy : ∀ t, y.head? = some t → t.kind.separates = false)
    (h : a ++ x = b ++ y) : a = b ∧ x = y := by
  have hkept {z : List Token} (hz : ∀ t, z.head? = some t → t.kind.separates = false) :
      z.dropWhile (·.kind.separates) = z := by
    cases z with
    | nil => rfl
    | cons t z => exact List.dropWhile_cons_of_neg (by simp [hz t rfl])
  have hxy : x = y := by
    rw [← hkept hx, ← dropWhile_separators ha, h, dropWhile_separators hb, hkept hy]
  subst hxy
  exact ⟨List.append_cancel_right h, rfl⟩

/-- A key is known from its text. -/
theorem key_inj {name : String} {quoted : Bool} (ha : IsKey a name quoted) (hb : IsKey b name quoted)
    (h : a ++ x = b ++ y) : a = b ∧ x = y := by
  cases quoted with
  | false =>
    obtain ⟨t, rfl, -, -⟩ := ha
    obtain ⟨u, rfl, -, -⟩ := hb
    exact List.append_inj h rfl
  | true =>
    have hread := IsLiteral.literalAt ha x
    rw [h, IsLiteral.literalAt hb y] at hread
    obtain ⟨-, rfl⟩ := Prod.mk.inj (Option.some.inj hread)
    exact ⟨List.append_cancel_right h, rfl⟩

/-- An element ends where a separator stands. -/
theorem element_inj (ha : a ≠ [] ∧ IsElement (kinds a)) (hb : b ≠ [] ∧ IsElement (kinds b))
    (hx : ∀ t, x.head? = some t → t.kind.separates = true) (hy : ∀ t, y.head? = some t → t.kind.separates = true)
    (h : a ++ x = b ++ y) : a = b ∧ x = y := by
  obtain ⟨first, others, rfl⟩ := List.exists_cons_of_ne_nil ha.1
  obtain ⟨first', others', rfl⟩ := List.exists_cons_of_ne_nil hb.1
  obtain rfl : first = first' := (List.cons.inj h).1
  have hrest : others ++ x = others' ++ y := (List.cons.inj h).2
  have hbreak := breakOutside_of_isElement ha.2 hx
  rw [hrest, breakOutside_of_isElement hb.2 hy] at hbreak
  obtain ⟨rfl, rfl⟩ := Prod.mk.inj hbreak
  exact ⟨rfl, rfl⟩

/-- What starts with an element does not start with a separator. -/
theorem head_not_separates (ha : a ≠ [] ∧ IsElement (kinds a)) (x : List Token) :
    ∀ t, (a ++ x).head? = some t → t.kind.separates = false := by
  obtain ⟨first, others, rfl⟩ := List.exists_cons_of_ne_nil ha.1
  rintro t ⟨⟩
  exact ha.2.not_separates

/-- A key has tokens. -/
theorem IsKey.ne_nil {name : String} {quoted : Bool} (h : IsKey a name quoted) : a ≠ [] := by
  cases quoted with
  | false =>
    obtain ⟨t, rfl, -, -⟩ := h
    exact List.cons_ne_nil _ _
  | true => cases h <;> exact List.cons_ne_nil _ _

/-- A value that is spelled plainly has no fragment of its own. -/
theorem SpellsPlain.leaf?_eq {v : Value} (h : SpellsPlain source v a) : v.leaf? = none := by
  cases h <;> rfl

/-- Tokens have roles in a part of a tree in one way only. -/
theorem HasRoles.unique {branch : Branch} {toks : List Token} {roles roles' : List Role}
    (h : HasRoles source branch toks roles) (h' : HasRoles source branch toks roles') : roles' = roles := by
  induction h generalizing roles' with
  | @leaf v first others hv he =>
    generalize htoks : first :: others = toks at h'
    cases h' with
    | @leaf _ first' others' hv' _ =>
      rw [← Option.some.inj (hv.symm.trans hv')]
    | literal hs => rw [hs.leaf?_eq] at hv; cases hv
    | object | array => cases hv
  | @literal v toks hs =>
    cases h' with
    | leaf hv => rw [hs.leaf?_eq] at hv; cases hv
    | literal => rfl
    | object | array => cases hs
  | @object ps opening close inside roles ho hc _ ih =>
    generalize htoks : opening :: (inside ++ [close]) = toks at h'
    cases h' with
    | leaf hv => cases hv
    | literal hs => cases hs
    | object _ _ hinside =>
      obtain ⟨-, htoks⟩ := List.cons.inj htoks
      obtain ⟨rfl, -⟩ := List.append_inj' htoks rfl
      rw [ih hinside]
  | @array vs opening close inside roles ho hc _ ih =>
    generalize htoks : opening :: (inside ++ [close]) = toks at h'
    cases h' with
    | leaf hv => cases hv
    | literal hs => cases hs
    | array _ _ hinside =>
      obtain ⟨-, htoks⟩ := List.cons.inj htoks
      obtain ⟨rfl, -⟩ := List.append_inj' htoks rfl
      rw [ih hinside]
  | noEntries => cases h'; rfl
  | @entry seps key toks rest colon p ps roles others hs hk hc hvalue hr _ ihvalue ihrest =>
    generalize htoks : seps ++ (key ++ colon :: (toks ++ rest)) = all at h'
    cases h' with
    | entry hs' hk' _ hvalue' hr' hrest' =>
      obtain ⟨rfl, hproperty⟩ := separators_inj hs hs' (head_not_separates ⟨hk.ne_nil, hk.isElement⟩ _)
        (head_not_separates ⟨hk'.ne_nil, hk'.isElement⟩ _) htoks
      obtain ⟨rfl, hcolon⟩ := key_inj hk hk' hproperty
      obtain ⟨rfl, rfl⟩ := element_inj hvalue.hasShape hvalue'.hasShape hr hr' (List.cons.inj hcolon).2
      rw [ihvalue hvalue', ihrest hrest']
  | noItems => cases h'; rfl
  | @item seps toks rest v vs roles others hs hvalue hr _ ihvalue ihrest =>
    generalize htoks : seps ++ (toks ++ rest) = all at h'
    cases h' with
    | item hs' hvalue' hr' hrest' =>
      obtain ⟨rfl, helement⟩ := separators_inj hs hs' (head_not_separates hvalue.hasShape _)
        (head_not_separates hvalue'.hasShape _) htoks
      obtain ⟨rfl, rfl⟩ := element_inj hvalue.hasShape hvalue'.hasShape hr hr' helement
      rw [ihvalue hvalue', ihrest hrest']

end Uniqueness

section Existence

variable {source : String}

/-- Tokens of a string or an expression have roles. -/
theorem exists_roles_stringOrExpression {first : Token} {others : List Token}
    (he : IsElement (kinds (first :: others))) :
    ∃ roles, HasRoles source (.value (stringOrExpression source first others)) (first :: others) roles := by
  refine ⟨_, .leaf ?_ he⟩
  unfold stringOrExpression
  split
  · split <;> rfl
  · rfl

/-- The tokens of a scalar spell a literal, or all of them belong to one fragment. -/
theorem exists_roles_scalar {first : Token} {others : List Token} (he : IsElement (kinds (first :: others))) :
    ∃ roles, HasRoles source (.value (scalar source first others)) (first :: others) roles := by
  match others with
  | [] =>
    rw [scalar_single]
    split
    · next hk => exact ⟨_, .literal (.number hk)⟩
    · exact ⟨_, .leaf rfl he⟩
    · next hk =>
      split
      · next ht => exact ⟨_, .literal (.true hk ht)⟩
      · split
        · next ht => exact ⟨_, .literal (.false hk ht)⟩
        · split
          · next ht => exact ⟨_, .literal (.null hk ht)⟩
          · exact exists_roles_stringOrExpression he
    · exact exists_roles_stringOrExpression he
  | [second] =>
    rw [scalar_pair]
    split
    · next h =>
      simp only [Bool.and_eq_true, decide_eq_true_eq] at h
      obtain ⟨⟨⟨hminus, htext⟩, hk⟩, hmeets⟩ := h
      exact ⟨_, .literal (.negative hminus htext hk hmeets)⟩
    · exact exists_roles_stringOrExpression he
  | second :: third :: others =>
    rw [scalar_longer]
    exact exists_roles_stringOrExpression he

mutual

/-- The tokens of a value have roles in it. -/
theorem exists_roles_readValue (first : Token) (others : List Token) (he : IsElement (kinds (first :: others))) :
    ∃ roles, HasRoles source (.value (readValue source first others)) (first :: others) roles := by
  have hreading := isReading_readValue source first others
  generalize readValue source first others = value at hreading ⊢
  cases hreading with
  | scalar => exact exists_roles_scalar he
  | @object inside entries ho hi hr =>
    have hw := weight_enclosed?_lt hi
    obtain ⟨close, rfl, hclose, hinside⟩ := exists_enclosed .brace (by simp) (by rw [ho]; rfl) he hi
    obtain ⟨roles, hroles⟩ := exists_roles_readEntries (elements inside) (parted_elements hinside) hr
    exact ⟨_, .object ho hclose hroles⟩
  | @array inside ho hi =>
    have hw := weight_enclosed?_lt hi
    obtain ⟨close, rfl, hclose, hinside⟩ := exists_enclosed .square (by simp) (by rw [ho]; rfl) he hi
    obtain ⟨roles, hroles⟩ := exists_roles_readItems (elements inside) (parted_elements hinside)
    exact ⟨_, .array ho hclose hroles⟩
termination_by others.length + 1

/-- The tokens between braces have roles in the entries that are read from them. -/
theorem exists_roles_readEntries {toks : List Token} (es : List (List Token)) (hp : Parted toks es)
    {entries : ObjectLiteral} (hr : readEntries source es = some entries) :
    ∃ roles, HasRoles source (.entries entries) toks roles := by
  match es, hp with
  | _, .done hs =>
    obtain rfl : [] = entries := by simpa [readEntries] using hr
    exact ⟨_, .noEntries hs⟩
  | _, @Parted.element seps first others rest es hs he hrest hp =>
    obtain ⟨p, entries', hproperty, hr', rfl⟩ := readEntries_cons_eq_some hr
    have hl := length_propertyAt_lt hproperty
    obtain ⟨key, colon, helement, hk, hc⟩ := propertyAt_cases hproperty
    obtain ⟨roles, hroles⟩ := exists_roles_readValue p.value.1 p.value.2 (isElement_value hproperty he)
    obtain ⟨others', hothers⟩ := exists_roles_readEntries es hp hr'
    have htoks : first :: (others ++ rest) = key ++ colon :: (p.value.1 :: p.value.2 ++ rest) := by
      rw [← List.cons_append, helement]
      simp
    rw [htoks]
    exact ⟨_, .entry hs hk hc hroles hrest hothers⟩
termination_by weight es
decreasing_by
  all_goals
    simp only [weight]
    omega

/-- The tokens between brackets have roles in the items that are read from them. -/
theorem exists_roles_readItems {toks : List Token} (es : List (List Token)) (hp : Parted toks es) :
    ∃ roles, HasRoles source (.items (readItems source es)) toks roles := by
  match es, hp with
  | _, .done hs =>
    rw [readItems]
    exact ⟨_, .noItems hs⟩
  | _, @Parted.element seps first others rest es hs he hrest hp =>
    obtain ⟨roles, hroles⟩ := exists_roles_readValue first others he
    obtain ⟨others', hothers⟩ := exists_roles_readItems es hp
    rw [readItems, ← List.cons_append]
    exact ⟨_, .item hs hroles hrest hothers⟩
termination_by weight es
decreasing_by
  all_goals
    simp only [weight, List.length_cons]
    omega

end

end Existence

end BicepMigration.Template
