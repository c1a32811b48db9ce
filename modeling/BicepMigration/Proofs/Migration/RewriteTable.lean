import BicepMigration.Proofs.Migration.Planned
import BicepMigration.Proofs.Migration.ScannableArtifacts
import BicepMigration.Proofs.Migration.WrittenReferences

/-!
# The table of rewrites

Planning lists, for each resource that is replaced, what is written for the paths that can be accessed through it.
Repair does not look at this table: it searches the outputs of the mapping for the longest path that the members start
with. Main statement: the table tells what repair writes, for outputs whose paths overlap too, and each reference is
either exchanged for that in the text of the transformation, or copied and reported.
-/

namespace BicepMigration.Migration

open Catalog Template Text

section Table

variable {catalog : ModuleCatalog} {taken : List String} {index : Nat} {ss : List Statement}

/-- What is listed for a plan entry: a rewrite for each output of its mapping. -/
def listedFor (catalog : ModuleCatalog) (e : PlanEntry) : List OutputRewrite :=
  match catalog.mapping? e.mappingIndex with
  | some mapping => mapping.outputs.map fun (path, output) => ⟨e.symbol, path, e.newSymbol, output⟩
  | none => []

/-- The table is made of what is listed for the plan entries. -/
theorem rewrites_planFrom (catalog : ModuleCatalog) (taken : List String) (index : Nat) (ss : List Statement) :
    (planFrom catalog taken index ss).rewrites =
      (planFrom catalog taken index ss).plan.flatMap (listedFor catalog) := by
  induction ss generalizing taken index with
  | nil => rfl
  | cons s rest ih =>
    unfold planFrom
    cases hj : judge catalog s with
    | untouched => exact ih taken (index + 1)
    | passedThrough warning => exact ih taken (index + 1)
    | replaced symbol type version body mappingIndex mapping =>
      have hmapping := (judged_of_judge hj).mapping
      simp only [List.flatMap_cons, listedFor, hmapping]
      exact congrArg _ (ih _ (index + 1))

/-- The first rewrite that is listed for a plan entry under a path. -/
def Analysis.rewrite? (analysis : Analysis) (e : PlanEntry) (path : String) : Option OutputRewrite :=
  analysis.rewrites.find? fun w => w.oldSymbol = e.symbol && w.newSymbol = e.newSymbol && w.path = path

/-- The rewrites of a plan entry are found by the paths of its outputs. -/
theorem find?_outputs (e : PlanEntry) (path : String) (outputs : List (String × String)) :
    (outputs.map fun (path, output) => (⟨e.symbol, path, e.newSymbol, output⟩ : OutputRewrite)).find?
        (fun w => w.oldSymbol = e.symbol && w.newSymbol = e.newSymbol && w.path = path) =
      (Json.entry? outputs path).map fun output => ⟨e.symbol, path, e.newSymbol, output⟩ := by
  unfold Json.entry?
  induction outputs with
  | nil => rfl
  | cons o outputs ih =>
    obtain ⟨key, output⟩ := o
    by_cases hk : key = path
    · subst hk
      simp
    · have hne : (path == key) = false := by simpa using Ne.symm hk
      rw [List.map_cons, List.find?_cons_of_neg (by simp [hk]), ih, List.lookup_cons, hne]

/-- The rewrites that are listed for a plan entry are the outputs of its mapping. -/
theorem rewrite?_eq {template : ScannedTemplate} {e : PlanEntry} (he : e ∈ (analyze catalog template).plan)
    {mapping : Mapping} (hm : catalog.mapping? e.mappingIndex = some mapping) (path : String) :
    (analyze catalog template).rewrite? e path =
      (Json.entry? mapping.outputs path).map fun output => ⟨e.symbol, path, e.newSymbol, output⟩ := by
  have htable : (analyze catalog template).rewrites = (analyze catalog template).plan.flatMap (listedFor catalog) :=
    rewrites_planFrom ..
  obtain ⟨before, after, hplan⟩ := List.append_of_mem he
  have hpairs := (planned_analyze catalog template).newSymbol_not_mem.2
  rw [hplan] at hpairs
  obtain ⟨-, hright, hcross⟩ := List.pairwise_append.1 hpairs
  -- what is listed for another entry has another symbol
  have hother {es : List PlanEntry} (h : ∀ o ∈ es, o.newSymbol ≠ e.newSymbol) :
      (es.flatMap (listedFor catalog)).find?
        (fun w => w.oldSymbol = e.symbol && w.newSymbol = e.newSymbol && w.path = path) = none := by
    refine List.find?_eq_none.2 fun w hw => ?_
    obtain ⟨o, ho, hw⟩ := List.mem_flatMap.1 hw
    have hsymbol : w.newSymbol = o.newSymbol := by
      unfold listedFor at hw
      split at hw
      · obtain ⟨_, -, rfl⟩ := List.mem_map.1 hw
        rfl
      · cases hw
    simp [hsymbol, h o ho]
  have hleft := hother fun o ho => hcross o ho e List.mem_cons_self
  have hafter := hother fun o ho => ((List.pairwise_cons.1 hright).1 o ho).symm
  rw [Analysis.rewrite?, htable, hplan, List.flatMap_append, List.flatMap_cons, List.find?_append, List.find?_append,
    hleft, hafter, Option.none_or, Option.or_none, listedFor, hm]
  exact find?_outputs e path mapping.outputs

end Table

section Longest

variable {outputs : List (String × String)} {members : List String}

/-- Members accessed one after the other. -/
def memberPath (members : List String) : String := ".".intercalate members

/-- No output is found if no prefix of the members is the path of one. -/
theorem longestOutput?_eq_none_iff {n : Nat} : longestOutput? outputs members n = none ↔
    ∀ k, 0 < k → k ≤ n → Json.entry? outputs (memberPath (members.take k)) = none := by
  induction n with
  | zero => exact ⟨fun _ k hk hle => absurd hle (by omega), fun _ => rfl⟩
  | succ n ih =>
    unfold longestOutput?
    split
    · next output he =>
      refine ⟨fun h => by simp at h, fun h => ?_⟩
      have hnone := h (n + 1) (Nat.succ_pos n) (Nat.le_refl _)
      rw [memberPath, he] at hnone
      cases hnone
    · next he =>
      rw [ih]
      refine ⟨fun h k hk hle => ?_, fun h k hk hle => h k hk (by omega)⟩
      rcases Nat.lt_or_eq_of_le hle with hlt | rfl
      · exact h k hk (by omega)
      · exact he

/-- The output that is found is that of the longest prefix that has one. -/
theorem longestOutput?_eq_some_iff {n : Nat} {output : String} {rest : List String} :
    longestOutput? outputs members n = some (output, rest) ↔
      ∃ k, 0 < k ∧ k ≤ n ∧ Json.entry? outputs (memberPath (members.take k)) = some output ∧ rest = members.drop k ∧
        ∀ m, k < m → m ≤ n → Json.entry? outputs (memberPath (members.take m)) = none := by
  induction n with
  | zero => exact ⟨fun h => (by cases h), fun ⟨k, hk, hle, _⟩ => absurd hle (by omega)⟩
  | succ n ih =>
    unfold longestOutput?
    split
    · next output' he =>
      rw [Option.some.injEq, Prod.mk.injEq]
      constructor
      · rintro ⟨rfl, rfl⟩
        exact ⟨n + 1, Nat.succ_pos n, Nat.le_refl _, he, rfl, fun m hm hle => by omega⟩
      · rintro ⟨k, hk, hle, hout, rfl, hnone⟩
        obtain rfl : k = n + 1 := by
          refine Decidable.byContradiction fun hne => ?_
          have hnot := hnone (n + 1) (by omega) (Nat.le_refl _)
          rw [memberPath, he] at hnot
          cases hnot
        rw [memberPath, he] at hout
        exact ⟨Option.some.inj hout, rfl⟩
    · next he =>
      rw [ih]
      constructor
      · rintro ⟨k, hk, hle, hout, rfl, hnone⟩
        refine ⟨k, hk, by omega, hout, rfl, fun m hm hle => ?_⟩
        rcases Nat.lt_or_eq_of_le hle with hlt | rfl
        · exact hnone m hm (by omega)
        · exact he
      · rintro ⟨k, hk, hle, hout, rfl, hnone⟩
        have hne : k ≠ n + 1 := by
          rintro rfl
          rw [memberPath, he] at hout
          cases hout
        exact ⟨k, hk, by omega, hout, rfl, fun m hm hle => hnone m hm (by omega)⟩

/-- Nothing is found if no prefix has an output. -/
theorem longestOutput?_eq_none_iff_start : longestOutput? outputs members members.length = none ↔
    ∀ start rest, members = start ++ rest → start ≠ [] → Json.entry? outputs (memberPath start) = none := by
  rw [longestOutput?_eq_none_iff]
  constructor
  · rintro h start rest rfl hne
    have hnone := h start.length (List.length_pos_iff.2 hne) (by simp)
    rwa [List.take_left] at hnone
  · intro h k hk hle
    refine h _ (members.drop k) (List.take_append_drop k members).symm fun hnil => ?_
    have hlength := congrArg List.length hnil
    rw [List.length_take, List.length_nil] at hlength
    omega

/-- What is found is the output of a prefix, and no longer prefix has one. -/
theorem longestOutput?_eq_some_iff_start {output : String} {rest : List String} :
    longestOutput? outputs members members.length = some (output, rest) ↔
      ∃ start, start ≠ [] ∧ members = start ++ rest ∧ Json.entry? outputs (memberPath start) = some output ∧
        ∀ more others, rest = more ++ others → more ≠ [] → Json.entry? outputs (memberPath (start ++ more)) = none := by
  rw [longestOutput?_eq_some_iff]
  constructor
  · rintro ⟨k, hk, hle, hout, rfl, hnone⟩
    have hlength : (members.take k).length = k := List.length_take_of_le hle
    refine ⟨members.take k, fun hnil => ?_, (List.take_append_drop k members).symm, hout,
      fun more others hmore hne => ?_⟩
    · rw [hnil, List.length_nil] at hlength
      omega
    · have hmembers : members = (members.take k ++ more) ++ others := by
        rw [List.append_assoc, ← hmore, List.take_append_drop]
      have hpos := List.length_pos_iff.2 hne
      have hlong := congrArg List.length hmembers
      simp only [List.length_append, hlength] at hlong
      have hlonger := hnone (k + more.length) (by omega) (by omega)
      rwa [show members.take (k + more.length) = members.take k ++ more by
        conv_lhs => rw [hmembers]
        exact List.take_left' (by rw [List.length_append, hlength])] at hlonger
  · rintro ⟨start, hne, rfl, hout, hnone⟩
    refine ⟨start.length, List.length_pos_iff.2 hne, by simp, by rwa [List.take_left], List.drop_left.symm,
      fun m hlt hle => ?_⟩
    rw [List.length_append] at hle
    have hmore := hnone (rest.take (m - start.length)) (rest.drop (m - start.length))
      (List.take_append_drop _ rest).symm fun hnil => by
        have hlength := congrArg List.length hnil
        rw [List.length_take, List.length_nil] at hlength
        omega
    rwa [List.take_append, List.take_of_length_le (Nat.le_of_lt hlt)]

/-- The text of a rewrite with further members. -/
def withMembers (text : String) (members : List String) : String :=
  members.foldl (fun text member => text ++ "." ++ member) text

/-- Members are written with points between them. -/
theorem withMembers_eq (text : String) (members : List String) :
    withMembers text members = ".".intercalate (text :: members) := by
  induction members generalizing text with
  | nil => rw [String.intercalate_singleton, withMembers, List.foldl_nil]
  | cons member members ih =>
    rw [withMembers, List.foldl_cons, ← withMembers, ih, String.intercalate_cons_cons, String.intercalate_cons_append]

end Longest

/-- Of the rewrites that are listed for a plan entry under beginnings of the members, this is the longest one. -/
structure IsLongestRewrite (analysis : Analysis) (e : PlanEntry) (start rest : List String) (w : OutputRewrite) :
    Prop where
  nonempty : start ≠ []
  listed : analysis.rewrite? e (memberPath start) = some w
  longest : ∀ more others, rest = more ++ others → more ≠ [] → analysis.rewrite? e (memberPath (start ++ more)) = none

/-- An edit puts the text in place of the reference, and the transformation writes it there. -/
structure IsEdited (catalog : ModuleCatalog) (template : ScannedTemplate) (analysis : Analysis) (r : SymbolUse)
    (text : String) : Prop where
  edit : ⟨r.span, text⟩ ∈ referenceEdits catalog analysis
  written : WritesReference catalog template analysis r text

/-- The transformation reports an error of a reference that cannot be resolved, where the reference stands. -/
def IsReported (catalog : ModuleCatalog) (template : ScannedTemplate) (analysis : Analysis) (r : SymbolUse) : Prop :=
  ∃ d ∈ (transform catalog template analysis).diagnostics,
    d.severity = .error ∧ d.code = .referenceResolution ∧ d.location = ⟨r.line, r.column, some r.symbol⟩

/-- What the table says of a reference, with the first plan entry for its symbol and the mapping of that. -/
structure ExplainedBy (catalog : ModuleCatalog) (template : ScannedTemplate) (analysis : Analysis) (r : SymbolUse)
    (e : PlanEntry) (mapping : Mapping) : Prop where
  entry : analysis.entry? r.symbol = some e
  found : catalog.mapping? e.mappingIndex = some mapping
  /-- A use with members is repaired if a rewrite is listed for some of the first ones. -/
  repaired : r.path ≠ [] → ((repair? mapping.outputs e.newSymbol r).isSome ↔
    ∃ start rest w, start ≠ [] ∧ r.path = start ++ rest ∧ w ∈ analysis.rewrites ∧ w.oldSymbol = e.symbol ∧
      w.newSymbol = e.newSymbol ∧ w.path = memberPath start)
  /-- What is written is the longest rewrite with the other members. -/
  written : r.path ≠ [] → ∀ text, repair? mapping.outputs e.newSymbol r = some text ↔
    ∃ start rest w, r.path = start ++ rest ∧ IsLongestRewrite analysis e start rest w ∧
      text = withMembers w.replacement rest
  /-- A use without members is repaired if it orders deployments. -/
  bare : r.path = [] → repair? mapping.outputs e.newSymbol r = if r.dependsOn then some e.newSymbol else none
  /-- What is written for the use, and nothing else, takes its place in the text. -/
  edited : ∀ text, IsEdited catalog template analysis r text ↔ repair? mapping.outputs e.newSymbol r = some text
  /-- A use for which nothing is written is copied. -/
  copied : repair? mapping.outputs e.newSymbol r = none →
    WritesReference catalog template analysis r (slice template.source r.span)
  /-- An error is reported exactly if there is no edit. -/
  reported : IsReported catalog template analysis r ↔ ∀ text, ¬ IsEdited catalog template analysis r text

section References

variable {catalog : ModuleCatalog} {template : ScannedTemplate} {e : PlanEntry} {mapping : Mapping}

/-- The table has no rewrite for a path if none of its rewrites for the entry has it. -/
theorem rewrite?_eq_none_iff {analysis : Analysis} {path : String} : analysis.rewrite? e path = none ↔
    ∀ w ∈ analysis.rewrites, w.oldSymbol = e.symbol → w.newSymbol = e.newSymbol → w.path ≠ path := by
  simp [Analysis.rewrite?]

/-- Where a mapping has no output, no rewrite is listed. -/
theorem rewrite?_eq_none_iff_lookup (he : e ∈ (analyze catalog template).plan)
    (hm : catalog.mapping? e.mappingIndex = some mapping) {path : String} :
    (analyze catalog template).rewrite? e path = none ↔ Json.entry? mapping.outputs path = none := by
  rw [rewrite?_eq he hm, Option.map_eq_none_iff]

/-- The rewrite of a longest prefix is that of the output which is found for it. -/
theorem longestOutput?_iff_isLongestRewrite (he : e ∈ (analyze catalog template).plan)
    (hm : catalog.mapping? e.mappingIndex = some mapping) {members rest : List String} {output : String} :
    longestOutput? mapping.outputs members members.length = some (output, rest) ↔
      ∃ start, members = start ++ rest ∧
        IsLongestRewrite (analyze catalog template) e start rest ⟨e.symbol, memberPath start, e.newSymbol, output⟩ := by
  have hlisted (start : List String) : (analyze catalog template).rewrite? e (memberPath start) =
      some ⟨e.symbol, memberPath start, e.newSymbol, output⟩ ↔
        Json.entry? mapping.outputs (memberPath start) = some output := by
    rw [rewrite?_eq he hm]
    simp
  rw [longestOutput?_eq_some_iff_start]
  constructor
  · rintro ⟨start, hne, hmembers, hout, hnone⟩
    exact ⟨start, hmembers, hne, (hlisted start).2 hout, fun more others hmore hmne =>
      (rewrite?_eq_none_iff_lookup he hm).2 (hnone more others hmore hmne)⟩
  · rintro ⟨start, hmembers, h⟩
    exact ⟨start, h.nonempty, hmembers, (hlisted start).1 h.listed, fun more others hmore hmne =>
      (rewrite?_eq_none_iff_lookup he hm).1 (h.longest more others hmore hmne)⟩

/-- What is written for a use with members is what the table says. -/
theorem repair?_eq_some_iff_rewrite (he : e ∈ (analyze catalog template).plan)
    (hm : catalog.mapping? e.mappingIndex = some mapping) {r : SymbolUse} (hp : r.path ≠ []) {text : String} :
    repair? mapping.outputs e.newSymbol r = some text ↔
      ∃ start rest w, r.path = start ++ rest ∧ IsLongestRewrite (analyze catalog template) e start rest w ∧
        text = withMembers w.replacement rest := by
  rw [repair?, if_neg (by simpa using hp), Option.map_eq_some_iff]
  constructor
  · rintro ⟨⟨output, rest⟩, hout, rfl⟩
    obtain ⟨start, hmembers, h⟩ := (longestOutput?_iff_isLongestRewrite he hm).1 hout
    exact ⟨start, rest, _, hmembers, h, (withMembers_eq _ rest).symm⟩
  · rintro ⟨start, rest, w, hmembers, h, rfl⟩
    -- the rewrite is that of an output
    have hlisted := h.listed
    rw [rewrite?_eq he hm] at hlisted
    obtain ⟨output, -, rfl⟩ := Option.map_eq_some_iff.1 hlisted
    exact ⟨(output, rest), (longestOutput?_iff_isLongestRewrite he hm).2 ⟨start, hmembers, h⟩,
      (withMembers_eq _ rest).symm⟩

/-- A use with members is repaired if a rewrite is listed for some of the first ones. -/
theorem isSome_repair?_iff (he : e ∈ (analyze catalog template).plan)
    (hm : catalog.mapping? e.mappingIndex = some mapping) {r : SymbolUse} (hp : r.path ≠ []) :
    (repair? mapping.outputs e.newSymbol r).isSome ↔
      ∃ start rest w, start ≠ [] ∧ r.path = start ++ rest ∧ w ∈ (analyze catalog template).rewrites ∧
        w.oldSymbol = e.symbol ∧ w.newSymbol = e.newSymbol ∧ w.path = memberPath start := by
  rw [repair?, if_neg (by simpa using hp), Option.isSome_map, ← not_iff_not, Bool.not_eq_true,
    Option.isSome_eq_false_iff, Option.isNone_iff_eq_none, longestOutput?_eq_none_iff_start]
  constructor
  · rintro h ⟨start, rest, w, hne, hmembers, hw, hold, hnew, hpath⟩
    have hnone := (rewrite?_eq_none_iff_lookup he hm).2 (h start rest hmembers hne)
    exact rewrite?_eq_none_iff.1 hnone w hw hold hnew hpath
  · intro h start rest hmembers hne
    refine (rewrite?_eq_none_iff_lookup he hm).1 (rewrite?_eq_none_iff.2 fun w hw hold hnew hpath => ?_)
    exact h ⟨start, rest, w, hne, hmembers, hw, hold, hnew, hpath⟩

/-- What takes the place of a reference is its repair. -/
theorem isEdited_iff {source : String} (h : scan source = .ok template) {r : SymbolUse}
    (hr : r ∈ (analyze catalog template).references)
    (hentry : Analysis.entry? (analyze catalog template) r.symbol = some e)
    (hm : catalog.mapping? e.mappingIndex = some mapping) (text : String) :
    IsEdited catalog template (analyze catalog template) r text ↔
      repair? mapping.outputs e.newSymbol r = some text := by
  refine ⟨fun hedited => (mem_referenceEdits_iff h hr hentry hm text).1 hedited.edit, fun hrepair => ?_⟩
  have hwritten := writesReference h hr hentry hm
  rw [writtenFor, hrepair] at hwritten
  exact ⟨(mem_referenceEdits_iff h hr hentry hm text).2 hrepair, hwritten⟩

/-- A reference is reported if nothing is written for it. -/
theorem isReported_iff {source : String} (h : scan source = .ok template) {r : SymbolUse}
    (hr : r ∈ (analyze catalog template).references)
    (hentry : Analysis.entry? (analyze catalog template) r.symbol = some e)
    (hm : catalog.mapping? e.mappingIndex = some mapping) :
    IsReported catalog template (analyze catalog template) r ↔ repair? mapping.outputs e.newSymbol r = none := by
  have hdiagnostics : (transform catalog template (analyze catalog template)).diagnostics =
      ((analyze catalog template).references.filterMap (repairEdit? catalog (analyze catalog template))).filterMap
        error? := rfl
  unfold IsReported
  simp only [hdiagnostics, List.filterMap_filterMap, List.mem_filterMap]
  constructor
  · rintro ⟨d, ⟨u, hu, herror⟩, -, -, hlocation⟩
    obtain ⟨-, e', mapping', hentry', -, hm'⟩ := exists_entry_of_mem_references hu
    rw [repairEdit?_eq hentry' hm', Option.bind_some] at herror
    cases hrepair : repair? mapping'.outputs e'.newSymbol u with
    | some written =>
      rw [hrepair] at herror
      cases herror
    | none =>
      rw [hrepair] at herror
      obtain rfl := Option.some.inj herror
      obtain ⟨hline, hcolumn, -⟩ := Location.mk.inj hlocation
      obtain rfl : u = r := use_eq_of_line h (exists_entry_of_mem_references hu).1
        (exists_entry_of_mem_references hr).1 hline hcolumn
      obtain rfl := Option.some.inj (hentry'.symm.trans hentry)
      obtain rfl := Option.some.inj (hm'.symm.trans hm)
      exact hrepair
  · intro hrepair
    refine ⟨unresolvedError e r, ⟨r, hr, ?_⟩, rfl, rfl, rfl⟩
    rw [repairEdit?_eq hentry hm, hrepair]
    rfl

/-- The table of rewrites explains every reference: what is written for it, whether that takes its place in the text of
the transformation and whether it is reported. -/
theorem references_explained {source : String} (h : scan source = .ok template) (catalog : ModuleCatalog)
    {r : SymbolUse} (hr : r ∈ (analyze catalog template).references) :
    ∃ e mapping, ExplainedBy catalog template (analyze catalog template) r e mapping := by
  obtain ⟨-, e, mapping, hentry, he, hm⟩ := exists_entry_of_mem_references hr
  refine ⟨e, mapping, hentry, hm, isSome_repair?_iff he hm, fun hp _ => repair?_eq_some_iff_rewrite he hm hp,
    fun hp => ?_, isEdited_iff h hr hentry hm, fun hnone => ?_, ?_⟩
  · simp [repair?, hp]
  · have hwritten := writesReference h hr hentry hm
    rwa [writtenFor, hnone] at hwritten
  · rw [isReported_iff h hr hentry hm, Option.eq_none_iff_forall_ne_some]
    exact forall_congr' fun text => not_congr (isEdited_iff h hr hentry hm text).symm

end References

/-- A document with outputs whose paths overlap. -/
def overlappingDocument : Document :=
  ⟨defaultSchemaVersion, [{ accountMapping with outputs := [("a", "outer"), ("a.b", "inner")] }]⟩

/-- A template in which a resource is accessed under both paths and under another one, and is used as it is. -/
def overlappingSource : String :=
  "resource sa 'T/a@2020-01-01' = \x7b\n\x7d\n" ++
    "resource kv 'T/b@2020-01-01' = \x7b\n  dependsOn: [\n    sa\n  ]\n\x7d\n" ++
    "output deep string = sa.a.b.c\noutput flat string = sa.a.z\noutput none string = sa.q\noutput bare object = sa\n"

/-- Outputs at a path and inside it: the longer one is taken, and its text stands in the migrated template. -/
theorem references_explained_overlapping :
    scan overlappingSource = .ok (templateOf overlappingSource) ∧
      (analyze (catalogOf overlappingDocument) (templateOf overlappingSource)).references.map (·.path) =
        [[], ["a", "b", "c"], ["a", "z"], ["q"], []] ∧
      (referenceEdits (catalogOf overlappingDocument)
          (analyze (catalogOf overlappingDocument) (templateOf overlappingSource))).map (·.replacement) =
        ["saModule", "saModule.outputs.inner.c", "saModule.outputs.outer.z"] ∧
      ∃ r ∈ (analyze (catalogOf overlappingDocument) (templateOf overlappingSource)).references,
        r.path = ["a", "b", "c"] ∧
          (∃ e mapping, ExplainedBy (catalogOf overlappingDocument) (templateOf overlappingSource)
            (analyze (catalogOf overlappingDocument) (templateOf overlappingSource)) r e mapping) ∧
          ∃ before after, (transform (catalogOf overlappingDocument) (templateOf overlappingSource)
            (analyze (catalogOf overlappingDocument) (templateOf overlappingSource))).text =
              before ++ "saModule.outputs.inner.c" ++ after := by
  obtain ⟨hok, hpaths, hedits, hplaces⟩ : (scan overlappingSource).isOk = true ∧
      (analyze (catalogOf overlappingDocument) (templateOf overlappingSource)).references.map (·.path) =
        [[], ["a", "b", "c"], ["a", "z"], ["q"], []] ∧
      (referenceEdits (catalogOf overlappingDocument)
          (analyze (catalogOf overlappingDocument) (templateOf overlappingSource))).map (·.replacement) =
        ["saModule", "saModule.outputs.inner.c", "saModule.outputs.outer.z"] ∧
      ∀ r ∈ (analyze (catalogOf overlappingDocument) (templateOf overlappingSource)).references,
        r.path = ["a", "b", "c"] →
          standsOutside (templateOf overlappingSource)
              (analyze (catalogOf overlappingDocument) (templateOf overlappingSource)) r = true ∧
            ⟨r.span, "saModule.outputs.inner.c"⟩ ∈ referenceEdits (catalogOf overlappingDocument)
              (analyze (catalogOf overlappingDocument) (templateOf overlappingSource)) := by decide +kernel
  obtain ⟨r, hr, hpath⟩ : ∃ r ∈ (analyze (catalogOf overlappingDocument) (templateOf overlappingSource)).references,
      r.path = ["a", "b", "c"] := List.mem_map.1 (hpaths ▸ by simp)
  have h : scan overlappingSource = .ok (templateOf overlappingSource) := scan_eq hok
  obtain ⟨hout, hmem⟩ := hplaces r hr hpath
  obtain ⟨e, mapping, hexplained⟩ := references_explained h (catalogOf overlappingDocument) hr
  have hrepair := (mem_referenceEdits_iff h hr hexplained.entry hexplained.found _).1 hmem
  exact ⟨h, hpaths, hedits, r, hr, hpath, ⟨e, mapping, hexplained⟩, _, _,
    ((hexplained.edited _).2 hrepair).written.outside hout⟩

end BicepMigration.Migration
