import BicepMigration.Proofs.Template.JoinedText
import BicepMigration.Proofs.Template.UsePlaces

/-!
# Uses that order deployments

The array under the key `dependsOn` is known in two ways: from the tree of a body, by its key, and from the tokens
around a use, by the token before the colon before the bracket that stands open. Main statements: where the key is a
name, the uses that only order deployments are the names of symbols that are whole elements of the array; where the key
stands in quotes there are none, though the tree has the same key.
-/

namespace BicepMigration.Template

open Text

section Elements

variable {toks outer rest : List Token} {es : List (List Token)}

/-- The last of balanced tokens leaves nothing open. -/
theorem Balanced.exists_last {ks : List TokenKind} {k : TokenKind} (h : Balanced (ks ++ [k])) :
    ∃ n, Nest.top.run ks = some n ∧ n.after k = some .top := by
  rw [Balanced, Nest.run_append] at h
  obtain ⟨n, hn, hlast⟩ := Option.bind_eq_some_iff.1 h
  rw [Nest.run_cons] at hlast
  obtain ⟨m, hm, hr⟩ := Option.bind_eq_some_iff.1 hlast
  obtain rfl := Option.some.inj hr
  exact ⟨n, hn, hm⟩

/-- Balanced tokens do not end with a bracket that opens. -/
theorem Balanced.last_not_opens {ks : List TokenKind} {k : TokenKind} (h : Balanced (ks ++ [k])) : k.opens = false := by
  obtain ⟨⟨zone, opened⟩, -, hlast⟩ := h.exists_last
  cases k <;> cases zone <;> simp_all [Nest.after, Nest.top, TokenKind.opens]

/-- An element does not end with a separator. -/
theorem IsElement.last_not_separates {ks : List TokenKind} {k : TokenKind} (h : IsElement (ks ++ [k])) :
    k.separates = false := by
  obtain ⟨n, hn, hlast⟩ := h.balanced.exists_last
  refine Bool.eq_false_iff.2 fun hk => ?_
  obtain ⟨-, rfl⟩ := Nest.after_of_separates hk hlast
  exact ((unbroken_append (n := .top) hn).1 h.unbroken).2.1 ⟨rfl, hk⟩

/-- Balanced tokens do not start with a bracket that closes. -/
theorem Balanced.head_not_closes {ks : List TokenKind} {k : TokenKind} (h : Balanced (k :: ks)) : k.closes = false := by
  rw [Balanced, Nest.run_cons] at h
  obtain ⟨m, hm, -⟩ := Option.bind_eq_some_iff.1 h
  cases k <;> simp_all [Nest.after, Nest.close, Nest.top, TokenKind.closes]

/-- Around an element there are separators, or nothing. -/
theorem Parted.exists_neighbours (h : Parted toks es) {e : List Token} (he : e ∈ es) :
    (∃ before after, toks = before ++ (e ++ after) ∧ Balanced (kinds before) ∧
      (∀ u, before.getLast? = some u → u.kind.separates = true) ∧
      ∀ u, after.head? = some u → u.kind.separates = true) ∧ e ≠ [] ∧ IsElement (kinds e) := by
  induction h with
  | done => cases he
  | @element seps first others rest es hs helement hr _ ih =>
    rcases List.mem_cons.1 he with rfl | he
    · exact ⟨⟨seps, rest, rfl, balanced_separators hs, fun u hu => hs u (List.mem_of_getLast? hu), hr⟩,
        List.cons_ne_nil _ _, helement⟩
    · obtain ⟨⟨before, after, rfl, hbefore, hleft, hright⟩, hne, helement'⟩ := ih he
      refine ⟨⟨seps ++ first :: others ++ before, after, by simp, ?_, fun u hu => ?_, hright⟩, hne, helement'⟩
      · rw [kinds_append, kinds_append]
        exact ((balanced_separators hs).append helement.balanced).append hbefore
      · cases before with
        | nil =>
          obtain ⟨t, ts, rfl⟩ := List.exists_cons_of_ne_nil hne
          have ht := hr t rfl
          rw [helement'.not_separates] at ht
          cases ht
        | cons t before =>
          rw [List.getLast?_append_of_ne_nil _ (List.cons_ne_nil _ _)] at hu
          exact hleft u hu

/-- Separators before elements do not matter. -/
theorem Parted.separators {seps : List Token} (hs : ∀ t ∈ seps, t.kind.separates = true) (h : Parted toks es) :
    Parted (seps ++ toks) es := by
  cases h with
  | done hs' => exact .done (List.forall_mem_append.2 ⟨hs, hs'⟩)
  | element hs' he hr h =>
    rw [← List.append_assoc]
    exact .element (List.forall_mem_append.2 ⟨hs, hs'⟩) he hr h

/-- Tokens that end with a separator are parted on their own. -/
theorem Parted.append {more : List Token} {es' : List (List Token)} (h : Parted toks es)
    (hlast : ∀ u, toks.getLast? = some u → u.kind.separates = true) (h' : Parted more es') :
    Parted (toks ++ more) (es ++ es') := by
  induction h with
  | done hs => exact h'.separators hs
  | @element seps first others rest es hs he hr _ ih =>
    -- else the last token of the element would be a separator
    have hrest : rest ≠ [] := by
      rintro rfl
      obtain ⟨init, u, hu⟩ := List.eq_nil_or_concat (first :: others) |>.resolve_left (List.cons_ne_nil _ _)
      rw [List.concat_eq_append] at hu
      have hsep := hlast u (by rw [List.append_nil, hu]; simp)
      rw [hu, kinds_append] at he
      rw [IsElement.last_not_separates (k := u.kind) he] at hsep
      cases hsep
    have hlast' : ∀ u, rest.getLast? = some u → u.kind.separates = true := by
      intro u hu
      refine hlast u ?_
      rw [← List.cons_append, ← List.append_assoc, List.getLast?_append_of_ne_nil _ hrest, hu]
    have hr' : ∀ u, (rest ++ more).head? = some u → u.kind.separates = true := by
      rwa [List.head?_append_of_ne_nil _ hrest]
    simpa using Parted.element hs he hr' (ih hlast')

/-- A name is a whole element where it has separators, or nothing, on both sides. -/
theorem mem_elements_of_neighbours {t : Token} (ho : Balanced (kinds outer)) (hr : Balanced (kinds rest))
    (ht : t.kind = .identifier) (hleft : ∀ u, outer.getLast? = some u → u.kind.separates = true)
    (hright : ∀ u, rest.head? = some u → u.kind.separates = true) : [t] ∈ elements (outer ++ t :: rest) := by
  have hname : IsElement (kinds [t]) := by
    rw [kinds_cons, ht]
    exact .single rfl rfl
  have hparted := (parted_elements ho).append hleft (@Parted.element [] t [] rest _ (by simp) hname hright
    (parted_elements hr))
  rw [show outer ++ t :: rest = outer ++ ([] ++ t :: ([] ++ rest)) from rfl, elements_of_parted hparted]
  simp

end Elements

section Orders

variable {before after : List Token} {t : Token}

/-- What is a whole element has no members. -/
theorem memberTokens_of_isDependsOnElement (h : isDependsOnElement before after = true) : memberTokens after = [] := by
  match after with
  | [] => rfl
  | [u] => rfl
  | u :: v :: after =>
    have hu : u.kind ≠ .dot := by
      rintro hu
      simp [isDependsOnElement, hu, TokenKind.separates] at h
    simp [memberTokens, hu]

/-- A whole element is a value. -/
theorem isValuePosition_of_isDependsOnElement (h : isDependsOnElement before after = true) :
    isValuePosition before after = true := by
  simp only [isDependsOnElement, Bool.and_eq_true] at h
  obtain ⟨⟨hleft, hright⟩, -⟩ := h
  cases before with
  | nil => cases hleft
  | cons u before =>
    cases after with
    | nil => cases hright
    | cons v after =>
      simp only [List.head?_cons, Option.any_some, Bool.or_eq_true, decide_eq_true_eq] at hleft hright
      have hu : u.kind ≠ .dot ∧ u.kind ≠ .identifier := by
        rcases hleft with hu | hu
        · simp [hu]
        · exact ⟨(TokenKind.neutral_of_separates hu).2, (TokenKind.neutral_of_separates hu).1⟩
      have hv : v.kind ≠ .colon := by
        rcases hright with hv | hv
        · simp [hv]
        · rintro hk
          rw [hk] at hv
          cases hv
      simp [isValuePosition, isKeyPosition, hu.1, hu.2, hv]

/-- A use that starts with the token only orders deployments. -/
def OrdersOnly (symbols : List String) (toks : List Token) (t : Token) : Prop :=
  ∃ use ∈ findUses symbols toks, use.span.start = t.span.start ∧ use.dependsOn = true

instance (symbols : List String) (toks : List Token) (t : Token) : Decidable (OrdersOnly symbols toks t) :=
  inferInstanceAs (Decidable (∃ use ∈ findUses symbols toks, use.span.start = t.span.start ∧ use.dependsOn = true))

/-- A use orders resources only if it is a whole element of the dependencies. -/
theorem ordersOnly_iff (symbols : List String) (h : Successive (before ++ t :: after)) :
    OrdersOnly symbols (before ++ t :: after) t ↔
      t.kind = .identifier ∧ t.text ∈ symbols ∧ isDependsOnElement before.reverse after = true := by
  constructor
  · rintro ⟨use, huse, hstart, hdepends⟩
    obtain ⟨before', u, after', heq, hk, hmem, rfl⟩ := exists_place_of_mem_findUses huse
    obtain ⟨rfl, rfl, rfl⟩ := h.place_inj heq hstart.symm
    simp only [SymbolUse.at, Bool.and_eq_true] at hdepends
    exact ⟨hk, hmem, hdepends.2⟩
  · rintro ⟨hk, hmem, hdepends⟩
    have hvalue := isValuePosition_of_isDependsOnElement hdepends
    refine ⟨SymbolUse.at before.reverse t after, mem_usesFrom_iff.2 (.of_place ?_), rfl, ?_⟩
    · rw [List.append_nil, List.append_nil, useAt?, if_pos]
      simp [hk, hmem, hvalue]
    · simp [SymbolUse.at, memberTokens_of_isDependsOnElement hdepends, hdepends]

end Orders

section Arrays

variable {source : String}

/-- Each property is read from an element of its own. -/
theorem exists_element_of_readEntries {es : List (List Token)} {ps : ObjectLiteral} (h : readEntries source es = some ps)
    {i : Nat} {p : Property Value} (hp : ps[i]? = some p) :
    ∃ element read, es[i]? = some element ∧ propertyAt element = some read ∧ p.key = read.key ∧
      p.quoted = read.quoted ∧ p.value = readValue source read.value.1 read.value.2 := by
  induction es generalizing ps i with
  | nil =>
    obtain rfl : [] = ps := by simpa [readEntries] using h
    cases hp
  | cons element es ih =>
    obtain ⟨read, others, hread, hothers, rfl⟩ := readEntries_cons_eq_some h
    cases i with
    | zero =>
      obtain rfl := Option.some.inj hp
      exact ⟨element, read, rfl, hread, rfl, rfl, rfl⟩
    | succ i => exact ih hothers hp

/-- An array is read from the elements in its brackets. -/
theorem exists_enclosed_of_array {first : Token} {others : List Token} {items : List Value}
    (h : readValue source first others = .array items) :
    ∃ found, first.kind = .bracketOpen ∧ enclosed? others = some found ∧ items = readItems source (elements found) := by
  have hreading := isReading_readValue source first others
  generalize readValue source first others = value at h hreading
  cases hreading with
  | scalar =>
    have hscalar := isScalar_scalar source first others
    rw [h] at hscalar
    cases hscalar
  | object => cases h
  | array ho hi => exact ⟨_, ho, hi, (Value.array.inj h).symm⟩

/-- The tokens of a property whose value is an array: a key, a colon, and balanced tokens in square brackets. -/
structure ArrayTokens (source : String) (p : Property Value) (items : List Value) (key : List Token)
    (colon bracket : Token) (found : List Token) (last : Token) : Prop where
  key : IsKey key p.key p.quoted
  colon : colon.kind = .colon
  opens : bracket.kind = .bracketOpen
  closes : last.kind = .bracketClose
  balanced : Balanced (kinds found)
  reads : items = readItems source (elements found)

/-- An array in a body is read from the tokens between its brackets. -/
theorem exists_arrayTokens {inside : List Token} {body : ObjectLiteral} (hb : Balanced (kinds inside))
    (hr : readEntries source (elements inside) = some body) {i : Nat} {p : Property Value} (hp : body[i]? = some p)
    {items : List Value} (hvalue : p.value = .array items) :
    ∃ key colon bracket found last, (elements inside)[i]? = some (key ++ colon :: bracket :: (found ++ [last])) ∧
      ArrayTokens source p items key colon bracket found last := by
  obtain ⟨element, read, helement, hread, hkey, hquoted, hreads⟩ := exists_element_of_readEntries hr hp
  obtain ⟨key, colon, rfl, hk, hc⟩ := propertyAt_cases hread
  obtain ⟨found, ho, henclosed, hitems⟩ := exists_enclosed_of_array (hreads.symm.trans hvalue)
  have hall := ((parted_elements hb).exists_neighbours (List.mem_of_getElem? helement)).2.2
  obtain ⟨last, hothers, hlast, hfound⟩ :=
    exists_enclosed .square (by simp) (by rw [ho]; rfl) (isElement_value hread hall) henclosed
  rw [hothers] at helement
  rw [← hkey, ← hquoted] at hk
  exact ⟨key, colon, read.value.1, found, last, helement, hk, hc, ho, hlast, hfound, hitems⟩

end Arrays

section Dependencies

variable {source : String} {before key outer rest after : List Token} {colon bracket last t : Token} {name : String}
  {quoted : Bool}

/-- The token before the colon of a property is a name only if the key is one. -/
theorem IsKey.any_isWord (h : IsKey key name quoted) (word : String) (before : List Token) :
    (before ++ key).getLast?.any (·.isWord word) = true ↔ quoted = false ∧ name = word := by
  cases quoted with
  | false =>
    obtain ⟨k, rfl, hk, hname⟩ := h
    simp [Token.isWord, hk, hname]
  | true =>
    cases h with
    | empty _ hc => simp [Token.isWord, hc]
    | text _ _ hc _ => simp [Token.isWord, hc]

/-- Directly inside an array, a token is taken for a dependency if the key before the array is the name and separators,
or the brackets of the array, stand on both sides. -/
theorem isDependsOnElement_iff (hk : IsKey key name quoted) (hc : colon.kind = .colon) (hb : bracket.kind = .bracketOpen)
    (ho : Balanced (kinds outer)) (hr : Balanced (kinds rest)) (hl : last.kind = .bracketClose) :
    isDependsOnElement (before ++ (key ++ colon :: bracket :: outer)).reverse (rest ++ last :: after) = true ↔
      (quoted = false ∧ name = "dependsOn") ∧ (∀ u, outer.getLast? = some u → u.kind.separates = true) ∧
        ∀ u, rest.head? = some u → u.kind.separates = true := by
  have hreverse : (before ++ (key ++ colon :: bracket :: outer)).reverse =
      outer.reverse ++ bracket :: colon :: (before ++ key).reverse := by simp
  have henclosing : enclosingBracket 0 (outer.reverse ++ bracket :: colon :: (before ++ key).reverse) =
      bracket :: colon :: (before ++ key).reverse := by
    have hrun := @enclosingBracket_run outer (bracket :: colon :: (before ++ key).reverse) .top .top ho
    rw [show Nest.top.opened.length = 0 from rfl] at hrun
    rw [hrun, enclosingBracket]
    simp [hb, TokenKind.closes, TokenKind.opens]
  have hleft : (outer.reverse ++ bracket :: colon :: (before ++ key).reverse).head?.any
      (fun u => u.kind = .bracketOpen || u.kind.separates) = true ↔
        ∀ u, outer.getLast? = some u → u.kind.separates = true := by
    rcases List.eq_nil_or_concat outer with rfl | ⟨init, u, rfl⟩
    · simp [hb]
    · rw [List.concat_eq_append, kinds_append] at ho
      have hopens := Balanced.last_not_opens (k := u.kind) ho
      have hne : u.kind ≠ .bracketOpen := by
        rintro hu
        rw [hu] at hopens
        cases hopens
      simp [hne]
  have hright : (rest ++ last :: after).head?.any (fun u => u.kind = .bracketClose || u.kind.separates) = true ↔
      ∀ u, rest.head? = some u → u.kind.separates = true := by
    cases rest with
    | nil => simp [hl]
    | cons u rest =>
      have hcloses : u.kind.closes = false := Balanced.head_not_closes hr
      have hne : u.kind ≠ .bracketClose := by
        rintro hu
        rw [hu] at hcloses
        cases hcloses
      simp [hne]
  rw [hreverse, isDependsOnElement, henclosing, Bool.and_eq_true, Bool.and_eq_true, hleft, hright,
    ← hk.any_isWord "dependsOn" before, @List.getLast?_eq_head?_reverse _ (before ++ key), and_comm]
  refine and_congr_left fun _ => ?_
  generalize (before ++ key).reverse = tokens
  cases tokens <;> simp [hb, hc]

/-- Behind a name balanced tokens go on. -/
theorem balanced_after_name (h : Balanced (kinds (outer ++ t :: rest))) (ho : Balanced (kinds outer))
    (ht : t.kind = .identifier) : Balanced (kinds rest) := by
  rw [kinds_append, kinds_cons, ht] at h
  exact (h.of_append ho).of_append (a := [.identifier]) rfl

/-- In an array under a key of a body, the uses that only order deployments are told by the tokens around them. -/
structure DependencyUses (template : ScannedTemplate) (p : Property Value) (found : List Token) : Prop where
  /-- Every element that is the name of a symbol only orders deployments, if the key is a name. -/
  elements : p.quoted = false → ∀ symbols t, [t] ∈ elements found → t.kind = .identifier → t.text ∈ symbols →
    OrdersOnly symbols template.tokens t
  /-- Directly inside the array nothing else does, and under a key in quotes nothing at all. -/
  others : ∀ symbols outer t rest, found = outer ++ t :: rest → Balanced (kinds outer) →
    OrdersOnly symbols template.tokens t →
      p.quoted = false ∧ [t] ∈ Template.elements found ∧ t.kind = .identifier ∧ t.text ∈ symbols

/-- The tokens stand in the brackets of an array that is the value of a property of a body, given by its place. -/
def IsArrayOf (template : ScannedTemplate) (s : Statement) (body : ObjectLiteral) (i : Nat) (p : Property Value)
    (items : List Value) (found : List Token) : Prop :=
  ∃ before opening inside close after, BodyTokens template s body before opening inside close after ∧
    ∃ key colon bracket last, (elements inside)[i]? = some (key ++ colon :: bracket :: (found ++ [last])) ∧
      ArrayTokens template.source p items key colon bracket found last

/-- The array under `dependsOn` at the top of a body: which of its tokens are uses that only order deployments. -/
theorem scan_dependencies {template : ScannedTemplate} (h : scan source = .ok template) {s : Statement}
    (hs : s ∈ template.statements) {body : ObjectLiteral} (hbody : s.body = some body) {i : Nat} {p : Property Value}
    (hp : body[i]? = some p) (hkey : p.key = "dependsOn") {items : List Value} (hvalue : p.value = .array items) :
    ∃ found, IsArrayOf template s body i p items found ∧ DependencyUses template p found := by
  obtain ⟨before, outer, -, opening, inside, close, after, hbodyTokens, -, -⟩ := exists_bodyTokens h hs hbody
  obtain ⟨key, colon, bracket, found, last, helement, harray⟩ :=
    exists_arrayTokens hbodyTokens.balanced hbodyTokens.reads hp hvalue
  have horder : Successive template.tokens := by
    obtain ⟨l, -, rfl⟩ := scan_eq_ok_iff.1 h
    exact l.successive
  obtain ⟨a, b, hinside⟩ := infix_of_mem_elements (List.mem_of_getElem? helement)
  -- the tokens of the template around those of the array
  have htokens (x : List Token) (t : Token) (y : List Token) (hfound : found = x ++ t :: y) : template.tokens =
      (before ++ outer ++ opening :: a) ++ (key ++ colon :: bracket :: x) ++ t :: (y ++ last :: (b ++ close :: after)) := by
    rw [hbodyTokens.tokens, ← hinside, hfound]
    simp
  have hiff (symbols : List String) (x : List Token) (t : Token) (y : List Token) (hfound : found = x ++ t :: y)
      (hx : Balanced (kinds x)) : OrdersOnly symbols template.tokens t ↔ t.kind = .identifier ∧ t.text ∈ symbols ∧
        p.quoted = false ∧ (∀ u, x.getLast? = some u → u.kind.separates = true) ∧
        ∀ u, y.head? = some u → u.kind.separates = true := by
    rw [htokens x t y hfound] at horder ⊢
    rw [ordersOnly_iff symbols horder]
    refine and_congr_right fun ht => and_congr_right fun _ => ?_
    have hy := balanced_after_name (hfound ▸ harray.balanced) hx ht
    rw [isDependsOnElement_iff harray.key harray.colon harray.opens hx hy harray.closes, and_iff_left hkey]
  refine ⟨found, ⟨_, _, _, _, _, hbodyTokens, key, colon, bracket, last, helement, harray⟩, ?_, ?_⟩
  · intro hquoted symbols t ht hk hmem
    obtain ⟨⟨x, y, hfound, hx, hleft, hright⟩, -, -⟩ := (parted_elements harray.balanced).exists_neighbours ht
    exact (hiff symbols x t y hfound hx).2 ⟨hk, hmem, hquoted, hleft, hright⟩
  · intro symbols x t y hfound hx horders
    obtain ⟨hk, hmem, hquoted, hleft, hright⟩ := (hiff symbols x t y hfound hx).1 horders
    have hy := balanced_after_name (hfound ▸ harray.balanced) hx hk
    rw [hfound]
    exact ⟨hquoted, mem_elements_of_neighbours hx hy hk hleft hright, hk, hmem⟩

/-- The elements of an array, if the value is one. -/
def Value.items? : Value → Option (List Value)
  | .array items => some items
  | _ => none

/-- The elements are those of an array. -/
theorem Value.items?_eq_some_iff {v : Value} {items : List Value} : v.items? = some items ↔ v = .array items := by
  cases v <;> simp [Value.items?]

/-- An array under `dependsOn` with names, an access, an array and a choice. -/
def dependentSource : String :=
  "resource sb 'T/a@2020-01-01' = \x7b\n  t: sa\n  dependsOn: [ sa, sc.id // c\n    [sa]\n    b ? sa : sc ]\n\x7d\n"

/-- Of four dependencies one is a plain name of a planned resource. -/
theorem scan_dependencies_mixed :
    scan dependentSource = .ok (scanned dependentSource) ∧
      (findUses ["sa", "sc"] (scanned dependentSource).tokens).map (fun u => (u.dotted, u.line, u.dependsOn)) =
        [("sa", 2, false), ("sa", 3, true), ("sc.id", 3, false), ("sa", 4, false), ("sa", 5, false), ("sc", 5, false)] ∧
      ∃ s ∈ (scanned dependentSource).statements, ∃ body, s.body = some body ∧
        ∃ p items, body[1]? = some p ∧ p.key = "dependsOn" ∧ p.value = .array items ∧ items.length = 4 ∧
          ∃ found, IsArrayOf (scanned dependentSource) s body 1 p items found ∧
            DependencyUses (scanned dependentSource) p found := by
  have h : scan dependentSource = .ok (scanned dependentSource) := scan_scanned (by decide +kernel)
  have hall : (scanned dependentSource).statements.map (fun s => (s.body.bind (·[1]?)).map fun p =>
      (p.key, p.value.items?.map (·.length))) = [some ("dependsOn", some 4)] := by decide +kernel
  obtain ⟨s, hs, hparts⟩ := List.mem_map.1 (hall ▸ List.mem_singleton_self _)
  obtain ⟨p, hbind, hp⟩ := Option.map_eq_some_iff.1 hparts
  obtain ⟨body, hbody, hp₁⟩ := Option.bind_eq_some_iff.1 hbind
  obtain ⟨hkey, hlength⟩ := Prod.mk.inj hp
  obtain ⟨items, hitems, hlength⟩ := Option.map_eq_some_iff.1 hlength
  have hvalue := Value.items?_eq_some_iff.1 hitems
  exact ⟨h, by decide +kernel, s, hs, body, hbody, p, items, hp₁, hkey, hvalue, hlength,
    scan_dependencies h hs hbody hp₁ hkey hvalue⟩

/-- The only element of an array, if that is an expression. -/
def Value.onlyExpression? : Value → Option Fragment
  | .array [.expression f] => some f
  | _ => none

/-- The only expression is that of an array with just one. -/
theorem Value.onlyExpression?_eq_some_iff {v : Value} {f : Fragment} :
    v.onlyExpression? = some f ↔ v = .array [.expression f] := by
  unfold Value.onlyExpression?
  split <;> simp_all

/-- The same key in quotes. -/
def quotedDependency : String := "resource sb 'T/a@2020-01-01' = \x7b\n  'dependsOn': [\n    sa\n  ]\n\x7d\n"

/-- The name of a symbol that is a whole element of the array under `dependsOn` may be taken for any other use. -/
theorem quoted_dependency_missed :
    scan quotedDependency = .ok (scanned quotedDependency) ∧ ∃ s ∈ (scanned quotedDependency).statements,
      ∃ body, s.body = some body ∧ ∃ p ∈ body, p.key = "dependsOn" ∧
        ∃ t ∈ (scanned quotedDependency).tokens, t.kind = .identifier ∧ t.text = "sa" ∧
          p.value = .array [.expression ⟨"sa", some t.span⟩] ∧
          ¬ OrdersOnly ["sa"] (scanned quotedDependency).tokens t := by
  have hall : (scanned quotedDependency).statements.map (fun s => (s.body.bind (·[0]?)).map fun p =>
      (p.key, p.value.onlyExpression?)) = [some ("dependsOn", some ⟨"sa", some ⟨54, 56⟩⟩)] := by decide +kernel
  have htokens : (scanned quotedDependency).tokens.filter (·.text = "sa") =
      [⟨.identifier, "sa", ⟨54, 56⟩, 3, 5⟩] := by decide +kernel
  obtain ⟨s, hs, hparts⟩ := List.mem_map.1 (hall ▸ List.mem_singleton_self _)
  obtain ⟨p, hbind, hp⟩ := Option.map_eq_some_iff.1 hparts
  obtain ⟨body, hbody, hfirst⟩ := Option.bind_eq_some_iff.1 hbind
  obtain ⟨hkey, hvalue⟩ := Prod.mk.inj hp
  have hmem := (List.mem_filter.1 (htokens ▸ List.mem_singleton_self _)).1
  exact ⟨scan_scanned (by decide +kernel), s, hs, body, hbody, p, List.mem_of_getElem? hfirst, hkey, _, hmem, rfl, rfl,
    Value.onlyExpression?_eq_some_iff.1 hvalue, by decide +kernel⟩

end Dependencies

end BicepMigration.Template
