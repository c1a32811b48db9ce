import BicepMigration.Migration.Validation
import BicepMigration.Proofs.Template.Element
import BicepMigration.Proofs.Template.LexerStep

/-!
# The search for a declaration

A planned resource is searched for in the text: its keyword, its symbol and its target in quotes, with white space
between them and nothing else. What was found is left behind as a whole, so a declaration in a comment can take away
the start of a real one. Main statement: a declaration that starts with a token is found, unless the target ends like
the start of a declaration.
-/

namespace BicepMigration.Migration

open Template Text

/-- White space, at least one character of it. -/
def IsSpace (cs : List Char) : Prop := cs ≠ [] ∧ ∀ c ∈ cs, isBlank c = true

/-- A declaration up to its target: the keyword and the symbol, and white space after each. -/
def IsOpening (symbol : String) (cs : List Char) : Prop :=
  ∃ a b, IsSpace a ∧ IsSpace b ∧ cs = "resource".toList ++ (a ++ (symbol.toList ++ b))

/-- The target of a planned resource. -/
def PlanEntry.target (entry : PlanEntry) : String := entry.resourceType ++ "@" ++ entry.apiVersion

/-- The target of a planned resource in quotes, and what comes after it. -/
def PlanEntry.quoted (entry : PlanEntry) (rest : List Char) : List Char :=
  '\'' :: (entry.target.toList ++ '\'' :: rest)

section Matching

variable {entry : PlanEntry} {next : List Char → Option (List Char)} {cs rest : List Char}

/-- What follows a text is what is left behind it. -/
theorem afterText_eq_some_iff {text : String} : afterText text cs = some rest ↔ cs = text.toList ++ rest := by
  unfold afterText
  simp only
  constructor
  · intro h
    split at h
    · next hp =>
      obtain ⟨more, rfl⟩ := List.isPrefixOf_iff_prefix.1 hp
      rw [List.drop_left] at h
      rw [Option.some.inj h]
    · cases h
  · rintro rfl
    simp

/-- What was found after white space. -/
theorem exists_of_afterSpace (h : afterSpace next cs = some rest) :
    ∃ a more, IsSpace a ∧ cs = a ++ more ∧ next more = some rest := by
  induction cs with
  | nil => cases h
  | cons c cs ih =>
    rw [afterSpace] at h
    split at h
    · next hc =>
      rw [Option.orElse_eq_orElse, Option.orElse_eq_or, Option.or_eq_some_iff] at h
      rcases h with h | ⟨-, h⟩
      · obtain ⟨a, more, ⟨-, ha⟩, rfl, hmore⟩ := ih h
        exact ⟨c :: a, more, ⟨List.cons_ne_nil c a, List.forall_mem_cons.2 ⟨hc, ha⟩⟩, rfl, hmore⟩
      · exact ⟨[c], cs, ⟨List.cons_ne_nil c [], by simpa using hc⟩, rfl, h⟩
    · cases h

/-- What comes after white space is found. -/
theorem isSome_afterSpace {a more : List Char} (ha : IsSpace a) (h : (next more).isSome = true) :
    (afterSpace next (a ++ more)).isSome = true := by
  obtain ⟨hne, hblank⟩ := ha
  induction a with
  | nil => exact absurd rfl hne
  | cons c a ih =>
    rw [List.cons_append, afterSpace, if_pos (hblank c List.mem_cons_self), Option.orElse_eq_orElse,
      Option.orElse_eq_or, Option.isSome_or]
    cases a with
    | nil => simp [h]
    | cons d a =>
      rw [ih (List.cons_ne_nil d a) fun e he => hblank e (List.mem_cons_of_mem c he)]
      rfl

/-- Type and version of a resource in quotes, as characters. -/
theorem toList_quoted (entry : PlanEntry) (rest : List Char) :
    ("'" ++ entry.resourceType ++ "@" ++ entry.apiVersion ++ "'").toList ++ rest = entry.quoted rest := by
  simp [PlanEntry.quoted, PlanEntry.target]

/-- What was found is a declaration. -/
theorem exists_of_afterDeclaration (h : afterDeclaration entry cs = some rest) :
    ∃ opening, IsOpening entry.symbol opening ∧ cs = opening ++ entry.quoted rest := by
  unfold afterDeclaration at h
  simp only [Option.bind_eq_bind, Option.bind_eq_some_iff] at h
  obtain ⟨afterKeyword, hkeyword, hspace⟩ := h
  obtain ⟨a, name, ha, hname, h⟩ := exists_of_afterSpace hspace
  obtain ⟨afterName, hsymbol, hspace⟩ := Option.bind_eq_some_iff.1 h
  obtain ⟨b, quoted, hb, hquoted, htarget⟩ := exists_of_afterSpace hspace
  rw [afterText_eq_some_iff] at hkeyword hsymbol htarget
  refine ⟨_, ⟨a, b, ha, hb, rfl⟩, ?_⟩
  rw [hkeyword, hname, hsymbol, hquoted, htarget, toList_quoted]
  simp only [List.append_assoc]

/-- A declaration that comes first is found. -/
theorem isSome_afterDeclaration {opening : List Char} (ho : IsOpening entry.symbol opening) (rest : List Char) :
    (afterDeclaration entry (opening ++ entry.quoted rest)).isSome = true := by
  obtain ⟨a, b, ha, hb, rfl⟩ := ho
  have hkeyword : afterText "resource" ("resource".toList ++ (a ++ (entry.symbol.toList ++ b)) ++ entry.quoted rest) =
      some (a ++ (entry.symbol.toList ++ (b ++ entry.quoted rest))) :=
    afterText_eq_some_iff.2 (by simp only [List.append_assoc])
  have htarget : (afterText ("'" ++ entry.resourceType ++ "@" ++ entry.apiVersion ++ "'")
      (entry.quoted rest)).isSome = true := by
    rw [afterText_eq_some_iff.2 (toList_quoted entry rest).symm]
    rfl
  unfold afterDeclaration
  simp only [hkeyword, Option.bind_eq_bind, Option.bind_some]
  refine isSome_afterSpace ha ?_
  rw [afterText_eq_some_iff.2 rfl, Option.bind_some]
  exact isSome_afterSpace hb htarget

end Matching

section Overlap

variable {entry : PlanEntry}

/-- A name goes on with a character that can start one, or with a digit. -/
theorem isNamePart_cases {c : Char} (h : isNamePart c = true) : isNameStart c = true ∨ c.isDigit = true := by
  simp only [isNamePart, isNameStart, Char.isAlphanum, Bool.or_eq_true] at h ⊢
  exact or_assoc.2 h

/-- A name is not empty, and holds neither white space nor a quote. -/
theorem plain_of_isName {symbol : String} (h : IsName symbol) :
    symbol.toList ≠ [] ∧ ∀ c ∈ symbol.toList, isBlank c = false ∧ c ≠ '\'' := by
  obtain ⟨c, cs, hsymbol, hc, hcs⟩ := h
  have hpart (d : Char) (hd : isNameStart d = true ∨ d.isDigit = true) : isBlank d = false ∧ d ≠ '\'' := by
    obtain ⟨-, hblank, -, -, hquote⟩ := plain_of_wordChar hd
    exact ⟨hblank, hquote⟩
  rw [hsymbol]
  refine ⟨List.cons_ne_nil c cs, fun d hd => ?_⟩
  rcases List.mem_cons.1 hd with rfl | hd
  · exact hpart d (.inl hc)
  · exact hpart d (isNamePart_cases (hcs d hd))

/-- Text that ends with a word is told apart from white space after it. -/
theorem append_space_inj {x y word word' a b : List Char} (hx : ∀ c ∈ word, isBlank c = false) (hword : word ≠ [])
    (hy : ∀ c ∈ word', isBlank c = false) (hword' : word' ≠ []) (ha : IsSpace a) (hb : IsSpace b)
    (h : (x ++ word) ++ a = (y ++ word') ++ b) : x ++ word = y ++ word' ∧ a = b := by
  have hnil {x y word a b e : List Char} (hy : ∀ c ∈ word, isBlank c = false) (hword : word ≠ [])
      (ha : IsSpace a) (he : y ++ word = x ++ e) (hae : a = e ++ b) : e = [] := by
    cases hlast : e.getLast? with
    | none => exact List.getLast?_eq_none_iff.1 hlast
    | some c =>
      have hblank := ha.2 c (by simp [hae, List.mem_of_getLast? hlast])
      have hlast' := congrArg List.getLast? he
      rw [List.getLast?_append, List.getLast?_append, hlast, List.getLast?_eq_some_getLast hword, Option.some_or,
        Option.some_or, Option.some.injEq] at hlast'
      rw [hy c (hlast' ▸ List.getLast_mem hword)] at hblank
      cases hblank
  rcases List.append_eq_append_iff.1 h with ⟨e, he, hae⟩ | ⟨e, he, hbe⟩
  · obtain rfl := hnil hy hword' ha he hae
    exact ⟨by simpa using he.symm, by simpa using hae⟩
  · obtain rfl := hnil hx hword hb he hbe
    exact ⟨by simpa using he, by simpa using hbe.symm⟩

/-- Two texts are parted alike at their first quotes. -/
theorem append_quote_inj {x y a b : List Char} (hx : '\'' ∉ x) (hy : '\'' ∉ y) (h : x ++ '\'' :: a = y ++ '\'' :: b) :
    x = y ∧ a = b := by
  have hnil {x y a b e : List Char} (hy : '\'' ∉ y) (he : y = x ++ e) (ha : '\'' :: a = e ++ b) : e = [] := by
    cases e with
    | nil => rfl
    | cons c e =>
      obtain rfl := (List.cons.inj ha).1
      exact absurd (by simp [he]) hy
  rcases List.append_eq_append_iff.1 h with ⟨e, he, ha⟩ | ⟨e, he, hb⟩
  · obtain rfl := hnil hy he ha
    exact ⟨by simpa using he.symm, by simpa using ha⟩
  · obtain rfl := hnil hx he hb
    exact ⟨by simpa using he, by simpa using hb.symm⟩

/-- An opening ends no other one. -/
theorem IsOpening.eq_nil_of_append {symbol : String} (hname : IsName symbol) {before opening opening' : List Char}
    (ho : IsOpening symbol opening) (ho' : IsOpening symbol opening') (h : before ++ opening = opening') :
    before = [] := by
  obtain ⟨hne, hplain⟩ := plain_of_isName hname
  have hsymbol : ∀ c ∈ symbol.toList, isBlank c = false := fun c hc => (hplain c hc).1
  have hkeyword : ∀ c ∈ "resource".toList, isBlank c = false := by simp [isBlank]
  obtain ⟨a, b, ha, hb, rfl⟩ := ho
  obtain ⟨a', b', ha', hb', rfl⟩ := ho'
  have hall : ((before ++ "resource".toList ++ a) ++ symbol.toList) ++ b =
      (("resource".toList ++ a') ++ symbol.toList) ++ b' := by
    simpa only [List.append_assoc] using h
  have hsymbols := List.append_cancel_right (append_space_inj hsymbol hne hsymbol hne hb hb' hall).1
  have hkeywords := (append_space_inj (x := before) (y := []) hkeyword (by decide) hkeyword (by decide) ha ha'
    hsymbols).1
  simpa using hkeywords

/-- An opening holds no quote. -/
theorem IsOpening.quote_not_mem {symbol : String} (hname : IsName symbol) {opening : List Char}
    (ho : IsOpening symbol opening) : '\'' ∉ opening := by
  have hspace {a : List Char} (ha : IsSpace a) : '\'' ∉ a := by
    intro hmem
    have hblank := ha.2 _ hmem
    revert hblank
    decide
  obtain ⟨a, b, ha, hb, rfl⟩ := ho
  simp only [List.mem_append, not_or]
  exact ⟨by decide, hspace ha, fun hmem => ((plain_of_isName hname).2 _ hmem).2 rfl, hspace hb⟩

/-- The target can be searched for: it holds no quote, and does not end like the start of a declaration. -/
structure PlanEntry.IsSearchable (entry : PlanEntry) : Prop where
  symbol : IsName entry.symbol
  quote_not_mem : '\'' ∉ entry.target.toList
  apart : ∀ opening, IsOpening entry.symbol opening → ¬ opening <:+ entry.target.toList

/-- A target that does not end with white space does not end like the start of a declaration. -/
theorem apart_of_last {symbol : String} {target : List Char} {c : Char} (hlast : target.getLast? = some c)
    (hc : isBlank c = false) : ∀ opening, IsOpening symbol opening → ¬ opening <:+ target := by
  rintro _ ⟨a, b, -, ⟨hne, hb⟩, rfl⟩ ⟨start, rfl⟩
  simp only [← List.append_assoc] at hlast
  rw [List.getLast?_append, List.getLast?_eq_some_getLast hne, Option.some_or, Option.some.injEq] at hlast
  have hblank := hb c (hlast ▸ List.getLast_mem hne)
  rw [hc] at hblank
  cases hblank

/-- What was found before a declaration ends before it. -/
theorem exists_of_overlap (hentry : entry.IsSearchable) {before opening after rest : List Char} (hne : before ≠ [])
    (ho : IsOpening entry.symbol opening)
    (h : afterDeclaration entry (before ++ (opening ++ '\'' :: after)) = some rest) :
    ∃ more, rest = more ++ (opening ++ '\'' :: after) := by
  obtain ⟨found, hfound, hall⟩ := exists_of_afterDeclaration h
  have hquote := ho.quote_not_mem hentry.symbol
  have hquote' := hfound.quote_not_mem hentry.symbol
  rw [PlanEntry.quoted] at hall
  by_cases hbefore : '\'' ∈ before
  · obtain ⟨first, second, rfl, hfirst⟩ := List.eq_append_cons_of_mem hbefore
    rw [List.append_assoc, List.cons_append] at hall
    obtain ⟨-, hall⟩ := append_quote_inj hfirst hquote' hall
    by_cases hsecond : '\'' ∈ second
    · obtain ⟨target, more, rfl, htarget⟩ := List.eq_append_cons_of_mem hsecond
      rw [List.append_assoc, List.cons_append] at hall
      exact ⟨more, (append_quote_inj htarget hentry.quote_not_mem hall).2.symm⟩
    · rw [← List.append_assoc] at hall
      obtain ⟨htarget, -⟩ := append_quote_inj (by simp [hsecond, hquote]) hentry.quote_not_mem hall
      exact absurd ⟨second, htarget⟩ (hentry.apart opening ho)
  · rw [← List.append_assoc] at hall
    obtain ⟨hopening, -⟩ := append_quote_inj (by simp [hbefore, hquote]) hquote' hall
    exact absurd (ho.eq_nil_of_append hentry.symbol hfound hopening) hne

end Overlap

section Search

variable {entry : PlanEntry} {startsToken : Nat → Bool}

/-- A declaration that starts where the test holds is found, or one before it. -/
theorem isSome_declarationFrom (hentry : entry.IsSearchable) {opening : List Char}
    (ho : IsOpening entry.symbol opening) (rest : List Char) {before : List Char} {offset seen : Nat}
    {previous : Option Char} (hstarts : startsToken (offset + byteLength before) = true)
    (hword : ∀ c, before.getLast?.or previous = some c → isWordChar c = false) (hseen : seen ≤ before.length) :
    (declarationFrom startsToken entry offset previous seen (before ++ (opening ++ entry.quoted rest))).isSome =
      true := by
  induction before generalizing offset seen previous with
  | nil =>
    obtain rfl : seen = 0 := Nat.le_zero.1 hseen
    obtain ⟨found, hfound⟩ := Option.isSome_iff_exists.1 (isSome_afterDeclaration ho rest)
    have hcons : ∃ cs, opening ++ entry.quoted rest = 'r' :: cs := by
      obtain ⟨a, b, -, -, rfl⟩ := ho
      exact ⟨_, rfl⟩
    obtain ⟨cs, hcons⟩ := hcons
    have hboundary : isWordBoundary previous (some 'r') = true := by
      have hr : isWordChar 'r' = true := by decide
      cases previous with
      | none => simp [isWordBoundary, hr]
      | some c => simp [isWordBoundary, hr, hword c rfl]
    rw [byteLength_nil, Nat.add_zero] at hstarts
    rw [List.nil_append, hcons]
    rw [hcons] at hfound
    simp [declarationFrom, hfound, hboundary, hstarts]
  | cons c before ih =>
    have hlater {seen : Nat} (hseen : seen ≤ before.length) :
        (declarationFrom startsToken entry (offset + c.utf8Size) (some c) seen
          (before ++ (opening ++ entry.quoted rest))).isSome = true := by
      refine ih ?_ (fun d hd => hword d ?_) hseen
      · rwa [byteLength_cons, ← Nat.add_assoc] at hstarts
      · rw [List.getLast?_cons, Option.some_or]
        cases hlast : before.getLast? <;> simpa [hlast] using hd
    rw [List.cons_append, declarationFrom]
    simp only
    split
    · exact hlater (by rw [List.length_cons] at hseen; omega)
    · split
      · exact hlater (Nat.zero_le _)
      · next found hfound =>
        split
        · exact hlater (Nat.zero_le _)
        · split
          · rfl
          · -- what was found before the declaration ends before it
            obtain ⟨more, rfl⟩ := exists_of_overlap hentry (List.cons_ne_nil c before) ho hfound
            refine hlater ?_
            simp only [PlanEntry.quoted, List.length_append]
            omega

/-- A declaration that starts with an identifier is found, if the character before it is not one of a word. -/
theorem isSome_declaration? (hentry : entry.IsSearchable) {template : ScannedTemplate} {before opening rest : List Char}
    (ho : IsOpening entry.symbol opening) (hsource : template.source.toList = before ++ (opening ++ entry.quoted rest))
    {t : Token} (ht : t ∈ template.tokens) (hk : t.kind = .identifier) (hstart : t.span.start = byteLength before)
    (hword : ∀ c, before.getLast? = some c → isWordChar c = false) : (declaration? template entry).isSome = true := by
  rw [declaration?, hsource]
  refine isSome_declarationFrom hentry ho rest ?_ (by simpa using hword) (Nat.zero_le _)
  rw [Nat.zero_add, ← hstart, List.contains_iff_mem]
  exact List.mem_map.2 ⟨t, List.mem_filter.2 ⟨ht, by simpa using hk⟩, rfl⟩

end Search

end BicepMigration.Migration
