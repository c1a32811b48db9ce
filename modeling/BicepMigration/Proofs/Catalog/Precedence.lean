import Mathlib.Data.Prod.Lex
import BicepMigration.Catalog.Lookup

/-!
# Precedence of the entries of a catalog

A lookup goes through an index of exact types and a list of globs, and sorts what it finds. It finds the mappings of the
document that a walk over all of them would find, in the order of precedence, and the entry for a version is the least
one among those whose range holds it. What a glob matches is left open: any test will do.
-/

namespace BicepMigration.Catalog

open Text

/-- The text is a glob and not a type. -/
def isGlob (text : String) : Bool := text.toList.any fun c => c = '*' || c = '?' || c = '['

/-- A resource type is one of those that a mapping is for. Letters of ASCII match an exact type without regard to case. -/
inductive IsFor (globs : List Glob.Piece → String → Bool) (type : String) (mapping : Mapping) : Prop where
  | exact : isGlob mapping.resourceType = false → smallLetters mapping.resourceType = smallLetters type →
      IsFor globs type mapping
  | glob {pieces : List Glob.Piece} : isGlob mapping.resourceType = true → Glob.read mapping.resourceType = .ok pieces →
      globs pieces type = true → IsFor globs type mapping

/-- The order of precedence: exact types before globs, then the specificity of the range, then the place. -/
def precedence (isGlob : Bool) (specificity : Nat × Int) (place : Nat) : Nat ×ₗ (Nat ×ₗ Int) ×ₗ Nat :=
  toLex (isGlob.toNat, toLex (toLex specificity, place))

/-- The mapping in a place of a document goes before the one in another. -/
def Precedes (document : Document) (i j : Nat) : Prop :=
  ∃ m n r s, document.modules[i]? = some m ∧ document.modules[j]? = some n ∧ m.versions.range = .ok r ∧
    n.versions.range = .ok s ∧ precedence (isGlob m.resourceType) r.specificity i <
      precedence (isGlob n.resourceType) s.specificity j

/-- The mapping in a place of a document is for a resource type. -/
def IsCandidate (globs : List Glob.Piece → String → Bool) (document : Document) (type : String) (i : Nat) : Prop :=
  ∃ m, document.modules[i]? = some m ∧ IsFor globs type m

/-- The mapping in a place of a document is for a resource type and a version. -/
def Applies (globs : List Glob.Piece → String → Bool) (document : Document) (type : String) (v : ApiVersion) (i : Nat) :
    Prop :=
  ∃ m r, document.modules[i]? = some m ∧ IsFor globs type m ∧ m.versions.range = .ok r ∧ r.contains v = true

/-- An entry is for one type, given in small letters. -/
def Entry.isExact (key : String) (e : Entry) : Bool := e.pattern = .exact key

/-- An entry has a glob that matches a resource type. -/
def Entry.hasGlob (globs : List Glob.Piece → String → Bool) (type : String) (e : Entry) : Bool :=
  match e.pattern with
  | .exact _ => false
  | .glob pieces => globs pieces type

section Index

variable {globs : List Glob.Piece → String → Bool} {type key : String}

namespace TypeIndex

/-- The indices under a type in small letters. -/
def under (index : TypeIndex) (key : String) : List Nat := (index.exact.lookup key).getD []

/-- The indices of the globs that match a type. -/
def matched (index : TypeIndex) (globs : List Glob.Piece → String → Bool) (type : String) : List Nat :=
  (index.globs.filter fun (pieces, _) => globs pieces type).map (·.2)

/-- A place is put at the end of the places under its key, and the other keys keep theirs. -/
theorem lookup_addUnder (key k : String) (i : Nat) (table : List (String × List Nat)) :
    ((addUnder key i table).lookup k).getD [] = (table.lookup k).getD [] ++ if key = k then [i] else [] := by
  induction table with
  | nil =>
    by_cases hk : key = k
    · simp [addUnder, hk]
    · simp [addUnder, hk, List.lookup_cons, beq_eq_false_iff_ne.2 (Ne.symm hk)]
  | cons e rest ih =>
    obtain ⟨key', indices⟩ := e
    rw [addUnder]
    split
    · next hkey =>
      subst hkey
      by_cases hk : key' = k
      · simp [hk]
      · simp [hk, List.lookup_cons, beq_eq_false_iff_ne.2 (Ne.symm hk)]
    · next hkey =>
      by_cases hk : key' = k
      · subst hk
        simp [Ne.symm hkey]
      · simp [List.lookup_cons, beq_eq_false_iff_ne.2 (Ne.symm hk), ih]

/-- An entry is found under its own type after all entries before it. -/
theorem under_add (index : TypeIndex) (i : Nat) (e : Entry) (key : String) :
    (index.add i e.pattern).under key = index.under key ++ if e.isExact key then [i] else [] := by
  unfold Entry.isExact
  cases e.pattern with
  | exact type => simp [under, add, lookup_addUnder]
  | glob pieces => simp [under, add]

/-- An entry with a pattern is matched after all entries before it. -/
theorem matched_add (index : TypeIndex) (i : Nat) (e : Entry) :
    (index.add i e.pattern).matched globs type = index.matched globs type ++ if e.hasGlob globs type then [i] else [] := by
  unfold Entry.hasGlob
  cases e.pattern with
  | exact type => simp [matched, add]
  | glob pieces => cases hg : globs pieces type <;> simp [matched, add, hg]

/-- What is found are the entries for exactly the type, and then those with a glob that matches it. -/
theorem found_addAll (index : TypeIndex) (n : Nat) (entries : List Entry) :
    (index.addAll n entries).under key =
        index.under key ++ ((entries.zipIdx n).filter (·.1.isExact key)).map (·.2) ∧
      (index.addAll n entries).matched globs type =
        index.matched globs type ++ ((entries.zipIdx n).filter (·.1.hasGlob globs type)).map (·.2) := by
  induction entries generalizing index n with
  | nil => simp [addAll]
  | cons e rest ih =>
    obtain ⟨hunder, hmatched⟩ := ih (index.add n e.pattern) (n + 1)
    rw [addAll, hunder, hmatched, under_add, matched_add, List.zipIdx_cons, List.filter_cons, List.filter_cons]
    constructor <;> split <;> simp

end TypeIndex

/-- What is found are the entries for exactly the type, and then those with a glob that matches it. -/
theorem found_ofEntries (globs : List Glob.Piece → String → Bool) (entries : List Entry) (type : String) :
    (TypeIndex.ofEntries entries).found globs type =
      (entries.zipIdx.filter (·.1.isExact (smallLetters type))).map (·.2) ++
        (entries.zipIdx.filter (·.1.hasGlob globs type)).map (·.2) := by
  obtain ⟨hunder, hmatched⟩ := TypeIndex.found_addAll (TypeIndex.mk [] []) 0 entries
  exact congrArg₂ (· ++ ·) hunder hmatched

/-- The places of entries of a kind are exactly theirs. -/
theorem mem_places {entries : List Entry} {p : Entry → Bool} {i : Nat} :
    i ∈ (entries.zipIdx.filter (p ·.1)).map (·.2) ↔ ∃ e, entries[i]? = some e ∧ p e = true := by
  simp only [List.mem_map, List.mem_filter, List.mem_zipIdx_iff_getElem?]
  constructor
  · rintro ⟨⟨e, i⟩, ⟨he, hp⟩, rfl⟩
    exact ⟨e, he, hp⟩
  · rintro ⟨e, he, hp⟩
    exact ⟨(e, i), ⟨he, hp⟩, rfl⟩

/-- No place is there twice. -/
theorem nodup_places (entries : List Entry) (p : Entry → Bool) : ((entries.zipIdx.filter (p ·.1)).map (·.2)).Nodup := by
  refine (List.filter_sublist.map _).nodup ?_
  rw [List.zipIdx_map_snd]
  exact List.nodup_range'

/-- An entry matches a resource type. -/
def Entry.Matches (globs : List Glob.Piece → String → Bool) (type : String) (e : Entry) : Prop :=
  e.isExact (smallLetters type) = true ∨ e.hasGlob globs type = true

/-- An entry for one type has no pattern. -/
theorem Entry.not_hasGlob_of_isExact {e : Entry} {key : String} (h : e.isExact key = true) : e.hasGlob globs type = false := by
  rw [isExact, decide_eq_true_eq] at h
  rw [hasGlob, h]

/-- The index finds the entries that match. -/
theorem mem_found {entries : List Entry} {i : Nat} :
    i ∈ (TypeIndex.ofEntries entries).found globs type ↔ ∃ e, entries[i]? = some e ∧ e.Matches globs type := by
  rw [found_ofEntries, List.mem_append, mem_places, mem_places, ← exists_or]
  simp only [Entry.Matches, and_or_left]

/-- The index finds no entry twice. -/
theorem nodup_found (globs : List Glob.Piece → String → Bool) (entries : List Entry) (type : String) :
    ((TypeIndex.ofEntries entries).found globs type).Nodup := by
  rw [found_ofEntries]
  refine List.nodup_append.2 ⟨nodup_places _ _, nodup_places _ _, ?_⟩
  rintro i hexact _ hglob rfl
  obtain ⟨e, he, hexact⟩ := mem_places.1 hexact
  obtain ⟨e', he', hglob⟩ := mem_places.1 hglob
  obtain rfl := Option.some.inj (he.symm.trans he')
  rw [Entry.not_hasGlob_of_isExact hexact] at hglob
  cases hglob

end Index

section Order

/-- The place of an entry with its index in the order of precedence. -/
def Entry.order (e : Entry × Nat) : Nat ×ₗ (Nat ×ₗ Int) ×ₗ Nat :=
  toLex (e.1.pattern.rank, toLex (toLex e.1.range.specificity, e.2))

/-- The order of candidates is the order of their keys. -/
theorem precedes_iff {a b : Entry × Nat} : ModuleCatalog.precedes a b = true ↔ Entry.order a ≤ Entry.order b := by
  have hspecificity : (toLex a.1.range.specificity = toLex b.1.range.specificity) ↔
      a.1.range.specificity.1 = b.1.range.specificity.1 ∧ a.1.range.specificity.2 = b.1.range.specificity.2 :=
    (toLex_inj (a := a.1.range.specificity)).trans Prod.ext_iff
  simp only [ModuleCatalog.precedes, Entry.order, Prod.Lex.toLex_le_toLex, Prod.Lex.toLex_lt_toLex, Bool.or_eq_true,
    Bool.and_eq_true, decide_eq_true_eq, hspecificity]
  tauto

end Order

variable {globs : List Glob.Piece → String → Bool} {type : String} {catalog : ModuleCatalog}

/-- Looking up gives the entries that match, with their indices. -/
theorem mem_matchingBy {e : Entry × Nat} :
    e ∈ catalog.matchingBy globs type ↔ catalog.entries[e.2]? = some e.1 ∧ e.1.Matches globs type := by
  rw [ModuleCatalog.matchingBy, List.mem_mergeSort, List.mem_filterMap]
  constructor
  · rintro ⟨i, hi, he⟩
    obtain ⟨e', he', rfl⟩ := Option.map_eq_some_iff.1 he
    obtain ⟨e'', he'', hmatch⟩ := mem_found.1 hi
    obtain rfl := Option.some.inj (he'.symm.trans he'')
    exact ⟨he', hmatch⟩
  · rintro ⟨he, hmatch⟩
    exact ⟨e.2, mem_found.2 ⟨e.1, he, hmatch⟩, by rw [he]; rfl⟩

/-- No entry is a candidate twice. -/
theorem nodup_candidatesBy (globs : List Glob.Piece → String → Bool) (catalog : ModuleCatalog) (type : String) :
    (catalog.candidatesBy globs type).Nodup := by
  have hguard : (fun i : Nat => (catalog.entries[i]?.map (·, i)).map (·.2)) =
      Option.guard fun i => catalog.entries[i]?.isSome := by
    funext i
    cases he : catalog.entries[i]? <;> simp [Option.guard, he]
  have hperm := (List.mergeSort_perm ((catalog.index.found globs type).filterMap fun i =>
    catalog.entries[i]?.map (·, i)) ModuleCatalog.precedes).map (·.2)
  rw [ModuleCatalog.candidatesBy, ModuleCatalog.matchingBy, hperm.nodup_iff, List.map_filterMap, hguard,
    List.filterMap_eq_filter]
  exact (nodup_found globs catalog.entries type).filter _

/-- What is looked up is in order. -/
theorem pairwise_matchingBy (globs : List Glob.Piece → String → Bool) (catalog : ModuleCatalog) (type : String) :
    (catalog.matchingBy globs type).Pairwise (Entry.order · < Entry.order ·) := by
  have hsorted := (@List.pairwise_mergeSort _ ModuleCatalog.precedes)
    (fun a b c hab hbc => precedes_iff.2 ((precedes_iff.1 hab).trans (precedes_iff.1 hbc)))
    (fun a b => by simpa [precedes_iff] using le_total (Entry.order a) (Entry.order b))
    ((catalog.index.found globs type).filterMap fun i => catalog.entries[i]?.map (·, i))
  have hdistinct := List.pairwise_map.1 (nodup_candidatesBy globs catalog type)
  refine (hsorted.and hdistinct).imp fun {a b} h => lt_of_le_of_ne (precedes_iff.1 h.1) fun he => h.2 ?_
  exact congrArg (fun key => (ofLex (ofLex key).2).2) he

section Documents

variable {document : Document} {m : Mapping} {e : Entry}

/-- The entry at a place is made of the mapping at that place of the document. -/
theorem map_getElem?_entries (hd : ModuleCatalog.ofDocument document = .ok catalog) (i : Nat) :
    document.modules[i]?.map Entry.ofMapping = catalog.entries[i]?.map .ok := by
  rw [← List.getElem?_map, ← List.getElem?_map, ModuleCatalog.map_ofMapping_of_ofDocument hd]

/-- An entry stands in the place of its mapping. -/
theorem ofMapping_of_getElem? (hd : ModuleCatalog.ofDocument document = .ok catalog) {i : Nat}
    (he : catalog.entries[i]? = some e) : document.modules[i]? = some e.mapping ∧ Entry.ofMapping e.mapping = .ok e := by
  have hplace := map_getElem?_entries hd i
  rw [he] at hplace
  obtain ⟨m, hm, hentry⟩ := Option.map_eq_some_iff.1 hplace
  obtain rfl := (Entry.ofMapping_eq_ok_iff.1 hentry).2.1
  exact ⟨hm, hentry⟩

/-- Every mapping has an entry in its place. -/
theorem exists_entry_of_getElem? (hd : ModuleCatalog.ofDocument document = .ok catalog) {i : Nat}
    (hm : document.modules[i]? = some m) : ∃ e, catalog.entries[i]? = some e ∧ Entry.ofMapping m = .ok e := by
  have hplace := map_getElem?_entries hd i
  rw [hm] at hplace
  obtain ⟨e, he, hentry⟩ := Option.map_eq_some_iff.1 hplace.symm
  exact ⟨e, he, hentry.symm⟩

/-- The pattern of an entry is read from a glob, or it is an exact type. -/
theorem pattern_cases (h : Entry.ofMapping m = .ok e) :
    (isGlob m.resourceType = true ∧ ∃ pieces, Glob.read m.resourceType = .ok pieces ∧ e.pattern = .glob pieces) ∨
      (isGlob m.resourceType = false ∧ e.pattern = .exact (smallLetters m.resourceType)) := by
  obtain ⟨-, -, hpattern, -⟩ := Entry.ofMapping_eq_ok_iff.1 h
  rw [show TypePattern.read m.resourceType = if isGlob m.resourceType then (Glob.read m.resourceType).map .glob
    else .ok (.exact (smallLetters m.resourceType)) from rfl] at hpattern
  split at hpattern
  · next hg =>
    cases hread : Glob.read m.resourceType with
    | error => simp [hread, Except.map] at hpattern
    | ok pieces => exact .inl ⟨hg, pieces, rfl, by simpa [hread, Except.map, eq_comm] using hpattern⟩
  · next hg => exact .inr ⟨by simpa using hg, (Except.ok.inj hpattern).symm⟩

/-- An entry matches the resource types that its mapping is for. -/
theorem matches_iff_isFor (h : Entry.ofMapping m = .ok e) : e.Matches globs type ↔ IsFor globs type m := by
  unfold Entry.Matches Entry.isExact Entry.hasGlob
  rcases pattern_cases h with ⟨hg, pieces, hread, hpattern⟩ | ⟨hg, hpattern⟩ <;> rw [hpattern]
  · simp only [reduceCtorEq, decide_false, Bool.false_eq_true, false_or]
    constructor
    · exact fun hmatch => .glob hg hread hmatch
    · rintro (⟨hnot, -⟩ | ⟨-, hread', hmatch⟩)
      · rw [hg] at hnot
        cases hnot
      · rwa [Except.ok.inj (hread.symm.trans hread')]
  · simp only [TypePattern.exact.injEq, decide_eq_true_eq, Bool.false_eq_true, or_false]
    constructor
    · exact fun hsame => .exact hg hsame
    · rintro (⟨-, hsame⟩ | ⟨hglob, -, -⟩)
      · exact hsame
      · rw [hg] at hglob
        cases hglob

/-- The order of entries is the precedence of their mappings. -/
theorem order_eq_precedence (h : Entry.ofMapping m = .ok e) (i : Nat) :
    Entry.order (e, i) = precedence (isGlob m.resourceType) e.range.specificity i := by
  rw [Entry.order, precedence]
  rcases pattern_cases h with ⟨hg, pieces, -, hpattern⟩ | ⟨hg, hpattern⟩ <;> rw [hpattern, hg] <;> rfl

/-- Entries are in order as their mappings are. -/
theorem precedes_of_order_lt (hd : ModuleCatalog.ofDocument document = .ok catalog) {a b : Entry × Nat}
    (ha : catalog.entries[a.2]? = some a.1) (hb : catalog.entries[b.2]? = some b.1) (h : Entry.order a < Entry.order b) :
    Precedes document a.2 b.2 := by
  obtain ⟨hm, hentry⟩ := ofMapping_of_getElem? hd ha
  obtain ⟨hn, hentry'⟩ := ofMapping_of_getElem? hd hb
  have hrange := (Entry.ofMapping_eq_ok_iff.1 hentry).2.2.2
  have hrange' := (Entry.ofMapping_eq_ok_iff.1 hentry').2.2.2
  exact ⟨_, _, _, _, hm, hn, hrange, hrange', by rwa [← order_eq_precedence hentry, ← order_eq_precedence hentry']⟩

/-- A mapping never goes before one that goes before it. -/
theorem Precedes.asymm {i j : Nat} (h : Precedes document i j) : ¬ Precedes document j i := by
  obtain ⟨m, n, r, s, hm, hn, hr, hs, hlt⟩ := h
  rintro ⟨n', m', s', r', hn', hm', hs', hr', hlt'⟩
  obtain rfl := Option.some.inj (hm.symm.trans hm')
  obtain rfl := Option.some.inj (hn.symm.trans hn')
  obtain rfl := Except.ok.inj (hr.symm.trans hr')
  obtain rfl := Except.ok.inj (hs.symm.trans hs')
  exact lt_asymm hlt hlt'

end Documents

/-- Looking up a resource type in a catalog follows a rule over the mappings of its document. -/
structure FollowsPrecedence (globs : List Glob.Piece → String → Bool) (document : Document) (catalog : ModuleCatalog)
    (type : String) : Prop where
  /-- No candidate is listed twice. -/
  nodup : (catalog.candidatesBy globs type).Nodup
  /-- The candidates are the places of the mappings for the type. -/
  mem_iff : ∀ i, i ∈ catalog.candidatesBy globs type ↔ IsCandidate globs document type i
  /-- They are listed in the order of precedence. -/
  sorted : (catalog.candidatesBy globs type).Pairwise (Precedes document)
  /-- What is no version has no entry. -/
  not_version : ∀ version, ApiVersion.read? (trim version) = none → catalog.findIndexBy? globs type version = none
  /-- The entry for a version is the first of those whose ranges hold it. -/
  first_iff : ∀ version v, ApiVersion.read? (trim version) = some v → ∀ i,
    catalog.findIndexBy? globs type version = some i ↔
      Applies globs document type v i ∧ ∀ j, Applies globs document type v j → j = i ∨ Precedes document i j
  /-- There is none only if no range holds the version. -/
  none_iff : ∀ version v, ApiVersion.read? (trim version) = some v →
    (catalog.findIndexBy? globs type version = none ↔ ∀ i, ¬ Applies globs document type v i)

section Lookups

variable {document : Document}

/-- A mapping applies to a type and a version if its entry is found for the type and its range holds the version. -/
theorem applies_iff (hd : ModuleCatalog.ofDocument document = .ok catalog) {v : ApiVersion} {i : Nat} :
    Applies globs document type v i ↔ ∃ e, (e, i) ∈ catalog.matchingBy globs type ∧ e.range.contains v = true := by
  constructor
  · rintro ⟨m, r, hm, hfor, hr, hv⟩
    obtain ⟨e, he, hentry⟩ := exists_entry_of_getElem? hd hm
    obtain rfl := Except.ok.inj (hr.symm.trans (Entry.ofMapping_eq_ok_iff.1 hentry).2.2.2)
    exact ⟨e, mem_matchingBy.2 ⟨he, (matches_iff_isFor hentry).2 hfor⟩, hv⟩
  · rintro ⟨e, hmem, hv⟩
    obtain ⟨he, hmatch⟩ := mem_matchingBy.1 hmem
    obtain ⟨hm, hentry⟩ := ofMapping_of_getElem? hd he
    exact ⟨_, _, hm, (matches_iff_isFor hentry).1 hmatch, (Entry.ofMapping_eq_ok_iff.1 hentry).2.2.2, hv⟩

/-- The candidates for a type are the mappings whose type or pattern it matches. -/
theorem mem_candidatesBy_iff (hd : ModuleCatalog.ofDocument document = .ok catalog) {i : Nat} :
    i ∈ catalog.candidatesBy globs type ↔ IsCandidate globs document type i := by
  rw [ModuleCatalog.candidatesBy, List.mem_map]
  constructor
  · rintro ⟨e, hmem, rfl⟩
    obtain ⟨he, hmatch⟩ := mem_matchingBy.1 hmem
    obtain ⟨hm, hentry⟩ := ofMapping_of_getElem? hd he
    exact ⟨_, hm, (matches_iff_isFor hentry).1 hmatch⟩
  · rintro ⟨m, hm, hfor⟩
    obtain ⟨e, he, hentry⟩ := exists_entry_of_getElem? hd hm
    exact ⟨(e, i), mem_matchingBy.2 ⟨he, (matches_iff_isFor hentry).2 hfor⟩, rfl⟩

/-- Candidates come in the order of precedence. -/
theorem pairwise_candidatesBy (hd : ModuleCatalog.ofDocument document = .ok catalog) :
    (catalog.candidatesBy globs type).Pairwise (Precedes document) := by
  rw [ModuleCatalog.candidatesBy, List.pairwise_map]
  exact (pairwise_matchingBy globs catalog type).imp_of_mem fun ha hb hlt =>
    precedes_of_order_lt hd (mem_matchingBy.1 ha).1 (mem_matchingBy.1 hb).1 hlt

/-- The entry that is found goes before all others whose ranges hold the version. -/
theorem first_of_find? (hd : ModuleCatalog.ofDocument document = .ok catalog) {v : ApiVersion} {e : Entry × Nat}
    (h : (catalog.matchingBy globs type).find? (fun e => e.1.range.contains v) = some e) :
    Applies globs document type v e.2 ∧ ∀ j, Applies globs document type v j → j = e.2 ∨ Precedes document e.2 j := by
  obtain ⟨hv, before, after, hsplit, hbefore⟩ := List.find?_eq_some_iff_append.1 h
  refine ⟨(applies_iff hd).2 ⟨e.1, List.mem_of_find?_eq_some h, hv⟩, fun j hj => ?_⟩
  obtain ⟨e', hmem, hv'⟩ := (applies_iff hd).1 hj
  have hsorted := pairwise_matchingBy globs catalog type
  rw [hsplit] at hmem hsorted
  rcases List.mem_append.1 hmem with hmem | hmem
  · have hnot := hbefore _ hmem
    simp [hv'] at hnot
  · rcases List.mem_cons.1 hmem with heq | hmem
    · exact .inl (congrArg (·.2) heq)
    · refine .inr (precedes_of_order_lt (b := (e', j)) hd (mem_matchingBy.1 (List.mem_of_find?_eq_some h)).1
        (mem_matchingBy.1 (?_ : (e', j) ∈ catalog.matchingBy globs type)).1
        ((List.pairwise_cons.1 (List.pairwise_append.1 hsorted).2.1).1 _ hmem))
      rw [hsplit]
      simp [hmem]

/-- The entry with an index is built from the mapping in that place. -/
theorem mapping?_eq (hd : ModuleCatalog.ofDocument document = .ok catalog) (i : Nat) :
    catalog.mapping? i = document.modules[i]? := by
  rw [ModuleCatalog.mapping?]
  cases hm : document.modules[i]? with
  | none =>
    have hplace := map_getElem?_entries hd i
    rw [hm, Option.map_none, eq_comm, Option.map_eq_none_iff] at hplace
    rw [hplace, Option.map_none]
  | some m =>
    obtain ⟨e, he, hentry⟩ := exists_entry_of_getElem? hd hm
    rw [he, Option.map_some, (Entry.ofMapping_eq_ok_iff.1 hentry).2.1]

section Versions

variable {version : String} {v : ApiVersion}

/-- The entry for a version is the first candidate whose range holds it. -/
theorem findIndexBy?_eq (h : ApiVersion.read? (trim version) = some v) :
    catalog.findIndexBy? globs type version =
      ((catalog.matchingBy globs type).find? fun e => e.1.range.contains v).map (·.2) := by
  rw [ModuleCatalog.findIndexBy?, h]

/-- No entry is found only if no range holds the version. -/
theorem findIndexBy?_eq_none_iff (hd : ModuleCatalog.ofDocument document = .ok catalog)
    (h : ApiVersion.read? (trim version) = some v) :
    catalog.findIndexBy? globs type version = none ↔ ∀ i, ¬ Applies globs document type v i := by
  rw [findIndexBy?_eq h, Option.map_eq_none_iff, List.find?_eq_none]
  constructor
  · intro hnone i hi
    obtain ⟨e, hmem, hv⟩ := (applies_iff hd).1 hi
    exact hnone _ hmem hv
  · exact fun hnone e hmem hv => hnone e.2 ((applies_iff hd).2 ⟨e.1, hmem, hv⟩)

/-- The entry that is found is the first of those whose ranges hold the version. -/
theorem findIndexBy?_eq_some_iff (hd : ModuleCatalog.ofDocument document = .ok catalog)
    (h : ApiVersion.read? (trim version) = some v) {i : Nat} :
    catalog.findIndexBy? globs type version = some i ↔
      Applies globs document type v i ∧ ∀ j, Applies globs document type v j → j = i ∨ Precedes document i j := by
  constructor
  · intro hi
    rw [findIndexBy?_eq h, Option.map_eq_some_iff] at hi
    obtain ⟨e, he, rfl⟩ := hi
    exact first_of_find? hd he
  · rintro ⟨hi, hleast⟩
    cases hf : catalog.findIndexBy? globs type version with
    | none => exact absurd hi ((findIndexBy?_eq_none_iff hd h).1 hf i)
    | some k =>
      rw [findIndexBy?_eq h, Option.map_eq_some_iff] at hf
      obtain ⟨e, he, rfl⟩ := hf
      obtain ⟨hk, hfirst⟩ := first_of_find? hd he
      -- both go before each other unless they are one
      rcases hleast _ hk with heq | hbefore
      · rw [heq]
      · rcases hfirst i hi with heq | hafter
        · rw [heq]
        · exact absurd hafter hbefore.asymm

end Versions

/-- For every language of globs, lookups in a catalog follow the precedence of the mappings in its document, and the
entry with an index is built from the mapping in that place. -/
theorem lookup_follows_precedence (hd : ModuleCatalog.ofDocument document = .ok catalog)
    (globs : List Glob.Piece → String → Bool) :
    (∀ i, catalog.mapping? i = document.modules[i]?) ∧ ∀ type, FollowsPrecedence globs document catalog type where
  left := mapping?_eq hd
  right type :=
    { nodup := nodup_candidatesBy globs catalog type
      mem_iff := fun _ => mem_candidatesBy_iff hd
      sorted := pairwise_candidatesBy hd
      not_version := fun version h => by rw [ModuleCatalog.findIndexBy?, h]
      first_iff := fun _ _ h _ => findIndexBy?_eq_some_iff hd h
      none_iff := fun _ _ h => findIndexBy?_eq_none_iff hd h }

/-- Two globs and two exact types for one resource type, the second one in other letters and with a range. -/
def overlappingDocument : Document :=
  let mapping (type versions : String) : Mapping := ⟨type, .one versions, "br:m/a", none, [], [], []⟩
  ⟨"1.0", [mapping "T/*" "*", mapping "T/?" "2020-01-01", mapping "t/A" "*", mapping "T/a" ">=2020-01-01 <=2021-01-01"]⟩

theorem lookup_follows_precedence_overlapping :
    ∃ catalog, ModuleCatalog.ofDocument overlappingDocument = .ok catalog ∧
      catalog.index.found TypePattern.globMatches "T/a" = [2, 3, 0, 1] ∧
      FollowsPrecedence TypePattern.globMatches overlappingDocument catalog "T/a" := by
  have hfound : (buildEntries 0 overlappingDocument.modules).toOption.map (fun entries =>
      (TypeIndex.ofEntries entries).found TypePattern.globMatches "T/a") = some [2, 3, 0, 1] := by decide +kernel
  cases hb : buildEntries 0 overlappingDocument.modules with
  | error fault =>
    rw [hb] at hfound
    cases hfound
  | ok entries =>
    have hd : ModuleCatalog.ofDocument overlappingDocument =
        .ok ⟨entries, Fingerprint.ofJson overlappingDocument.toJson⟩ := by rw [ModuleCatalog.ofDocument, hb]; rfl
    rw [hb] at hfound
    exact ⟨_, hd, Option.some.inj hfound, (lookup_follows_precedence hd TypePattern.globMatches).2 "T/a"⟩

end Lookups

end BicepMigration.Catalog
