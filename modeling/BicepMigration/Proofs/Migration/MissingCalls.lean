import BicepMigration.Proofs.Migration.SameFindings

/-!
# Module calls that are missing

A module call of a plan is missing from a text, or it is there with another locator than that of the plan. Where inputs
are removed from a module call, its heading is written anew with the locator of the plan. So an optimized text misses the
module calls that the text before misses, except for those from which inputs were removed. Main statement: nothing that
is missing gets lost if these have the locator of the plan.
-/

namespace BicepMigration.Migration

open Catalog Template Text

section Found

variable {plan : List PlanEntry} {template template' : ScannedTemplate} {e : PlanEntry}

/-- What is said of a module call that is not there. -/
def absentFinding (e : PlanEntry) : Finding :=
  ⟨.error, .missingModuleBlock, "module '" ++ e.newSymbol ++ "' replacing '" ++ e.symbol ++ "' is missing",
    some e.newSymbol⟩

/-- What is said of a module call with another locator. -/
def strayFinding (e : PlanEntry) (target : Option String) : Finding :=
  ⟨.error, .missingModuleBlock,
    "module '" ++ e.newSymbol ++ "' points at " ++ shown (target.getD "") ++ ", expected '" ++ e.module ++ "'",
    some e.newSymbol⟩

/-- What is missing for a plan entry, given the target of its module call if that is there. -/
def missingFinding? (e : PlanEntry) : Option (Option String) → Option Finding
  | none => some (absentFinding e)
  | some target => if target = some e.module then none else some (strayFinding e target)

/-- The target of the module call of a plan entry, if that is there. -/
def callTarget? (template : ScannedTemplate) (e : PlanEntry) : Option (Option String) :=
  (template.find? .module e.newSymbol).map (·.target)

/-- What the check of a text finds missing. -/
def missingCalls (plan : List PlanEntry) (text : String) : List Finding :=
  (validate plan text).findings.filter (·.code = .missingModuleBlock)

/-- A module call that is missing is the one finding of that code. -/
theorem filter_moduleFault? (template : ScannedTemplate) (e : PlanEntry) :
    ((moduleFault? template e).map Diagnostic.finding).filter (·.code = .missingModuleBlock) =
      missingFinding? e (callTarget? template e) := by
  unfold moduleFault? callTarget?
  cases template.find? .module e.newSymbol with
  | none => rfl
  | some s =>
    by_cases htarget : s.target = some e.module
    · simp only [htarget, ne_eq, not_true_eq_false, if_false, Option.map_some, missingFinding?, if_true]
      split <;> rfl
    · simp only [htarget, ne_eq, not_false_eq_true, if_true, Option.map_some, missingFinding?, if_false]
      rfl

/-- Other findings say nothing of what is missing. -/
theorem filter_findings_eq_nil (ds : List Diagnostic) (h : ∀ d ∈ ds, d.code ≠ .missingModuleBlock) :
    (Report.findings ⟨ds⟩).filter (·.code = .missingModuleBlock) = [] := by
  rw [Report.findings, List.filter_eq_nil_iff]
  intro f hf hcode
  obtain ⟨d, hd, rfl⟩ := List.mem_map.1 hf
  exact h d hd (of_decide_eq_true hcode)

/-- What is missing is told entry by entry. -/
theorem missingCalls_eq {text : String} (h : scan text = .ok template) :
    missingCalls plan text = plan.filterMap fun e => missingFinding? e (callTarget? template e) := by
  simp only [← filter_moduleFault?]
  rw [missingCalls, validate, h]
  simp only [validateScanned, Report.findings_append, List.filter_append]
  -- declarations that remain and uses of replaced resources are other findings
  rw [filter_findings_eq_nil (List.map _ (residuals template plan)),
    filter_findings_eq_nil (List.map danglingError _), List.nil_append, List.append_nil, Report.findings,
    List.map_filterMap, List.filter_filterMap]
  · intro d hd
    obtain ⟨use, -, rfl⟩ := List.mem_map.1 hd
    simp [danglingError]
  · intro d hd
    obtain ⟨r, -, rfl⟩ := List.mem_map.1 hd
    simp [residualError]

end Found

variable {catalog : ModuleCatalog} {template optimized : ScannedTemplate} {plan : List PlanEntry}

/-- A statement with a symbol keeps its target, unless it is written anew with the locator of an entry. -/
theorem Elides.target_cases {i : Nat} {s s' : Statement} {symbol : String}
    (h : Elides catalog template plan i s s') (hs : s.symbol = some symbol) :
    (∀ e ∈ plan, elidedIndex? catalog template e ≠ some i) ∧ s'.target = s.target ∨
      ∃ e ∈ plan, elidedIndex? catalog template e = some i ∧ e.newSymbol = symbol ∧ s'.target = some e.module := by
  obtain ⟨-, hsymbol⟩ := h.head_eq
  rcases h with ⟨hnone, hsense⟩ | ⟨e, he, hindex, mapping, body, params, -, hfind, -, -, hsense⟩
  · have htarget : (s'.symbol.bind fun _ => s'.target) = s.symbol.bind fun _ => s.target :=
      congrArg (·.target) hsense
    rw [hsymbol, hs, Option.bind_some, Option.bind_some] at htarget
    exact .inl ⟨hnone, htarget⟩
  · obtain ⟨-, hkind, hnew⟩ := ScannedTemplate.mem_of_find? hfind
    rw [elidedCall, sense_rewrittenCall hkind hnew] at hsense
    have htarget : (s'.symbol.bind fun _ => s'.target) = s.symbol.bind fun _ => some e.module :=
      congrArg (·.target) hsense
    rw [hsymbol, hs, Option.bind_some, Option.bind_some] at htarget
    exact .inr ⟨e, he, hindex, Option.some.inj (hnew.symm.trans hs), htarget⟩

/-- An entry without inputs to remove is not written anew. -/
theorem removedInputs_eq_nil_of_elisionEdit? {e : PlanEntry} (h : elisionEdit? catalog template e = none) :
    removedInputs catalog template e = [] := by
  by_contra hne
  obtain ⟨mapping, s, body, params, hinputs⟩ := hasInputs_of_removedInputs hne
  exact hne (hinputs.removedInputs_eq_nil h)

/-- The target of the module call of an entry stays, unless inputs are removed from it. Then it is that of the entry. -/
theorem callTarget?_optimized {e : PlanEntry} (he : e ∈ plan)
    (hplan : plan.Pairwise fun a b => a.newSymbol ≠ b.newSymbol)
    (hall : List.Forall₂ (fun p s' => Elides catalog template plan p.2 p.1 s') template.statements.zipIdx
      optimized.statements) :
    callTarget? optimized e =
      if removedInputs catalog template e = [] then callTarget? template e else some (some e.module) := by
  unfold callTarget?
  rcases find?_optimized e hall with ⟨hnone, hnone'⟩ | ⟨s, s', i, hs, hi, hs', helides⟩
  · have hremoved : removedInputs catalog template e = [] := by
      by_contra hne
      obtain ⟨_, s, _, _, hinputs⟩ := hasInputs_of_removedInputs hne
      cases hnone.symm.trans hinputs.statement
    rw [if_pos hremoved, hnone, hnone']
  · obtain ⟨-, -, hsymbol⟩ := ScannedTemplate.mem_of_find? hs
    rw [hs, hs', Option.map_some, Option.map_some]
    rcases helides.target_cases hsymbol with ⟨hnone, htarget⟩ | ⟨e', he', hindex, hnew, htarget⟩
    · have hedit : elisionEdit? catalog template e = none := by
        have hne := hnone e he
        rw [elidedIndex?, hi] at hne
        cases hedit : elisionEdit? catalog template e with
        | none => rfl
        | some edit => simp [hedit] at hne
      rw [if_pos (removedInputs_eq_nil_of_elisionEdit? hedit), htarget]
    · obtain rfl := eq_of_newSymbol hplan he' he hnew
      obtain ⟨edit, hedit⟩ := exists_elisionEdit hindex
      rw [if_neg (span_of_elisionEdit? hedit).1, htarget]

/-- An optimized text misses the module calls that the text before misses, if nothing was removed from them. -/
theorem missingCalls_optimize {document : Document} (hd : ModuleCatalog.ofDocument document = .ok catalog)
    (hplain : PlainLocators catalog) {source text : String} {migrated : ScannedTemplate}
    (h : scan source = .ok template) (hm : scan text = .ok migrated) :
    missingCalls (analyze catalog template).plan (optimize catalog (analyze catalog template).plan text).text =
      (analyze catalog template).plan.filterMap fun e =>
        if removedInputs catalog migrated e = [] then missingFinding? e (callTarget? migrated e) else none := by
  have hplan := (planned_analyze catalog template).newSymbol_not_mem.2
  obtain ⟨hw, hlocators⟩ := writable_plan hd hplain h
  generalize (analyze catalog template).plan = plan at hplan hw hlocators ⊢
  obtain ⟨optimized, ho, hall⟩ := (@exists_elides catalog) hm hplan hw hlocators
  rw [missingCalls_eq ho]
  refine List.filterMap_congr fun e he => ?_
  rw [callTarget?_optimized he hplan hall]
  split
  · rfl
  · exact if_pos rfl

/-- The inputs that are removed for a plan entry, where no path of a default has a point. -/
def removedFlat (catalog : ModuleCatalog) (template : ScannedTemplate) (e : PlanEntry) : List String :=
  match catalog.mapping? e.mappingIndex, (template.find? .module e.newSymbol).bind paramsOf? with
  | some mapping, some (_, params) => (pruneFlat mapping.defaults e.newSymbol params).removed
  | _, _ => []

/-- Without a point in the path of a default inputs are removed from the top only. -/
theorem removedInputs_of_flat (hflat : ∀ entry ∈ catalog.entries, ∀ d ∈ entry.mapping.defaults, '.' ∉ d.1.toList) :
    removedInputs catalog template = removedFlat catalog template := by
  funext e
  unfold removedFlat
  split
  · next mapping body params hmapping hparams =>
    obtain ⟨s, hs, hp⟩ := Option.bind_eq_some_iff.1 hparams
    obtain ⟨hbody, hget⟩ := paramsOf?_eq_some.1 hp
    have hinputs : HasInputs catalog template e mapping s body params := ⟨hmapping, hs, hbody, hget⟩
    obtain ⟨entry, hentry, rfl⟩ := Option.map_eq_some_iff.1 hmapping
    rw [hinputs.removedInputs_eq, prune_of_flat (hflat entry (List.mem_of_getElem? hentry))]
  · next hno =>
    by_contra hne
    obtain ⟨mapping, s, body, params, hinputs⟩ := hasInputs_of_removedInputs hne
    refine hno mapping body params hinputs.mapping ?_
    rw [hinputs.statement, Option.bind_some, paramsOf?_eq_some.2 ⟨hinputs.body, hinputs.params⟩]

section Pair

/-- Two resources of the mapped type. -/
def pairSource : String :=
  "resource sa 'T/a@2020-01-01' = \x7b\n\x7d\nresource sb 'T/a@2020-01-01' = \x7b\n\x7d\n"

/-- The plan for these resources. -/
def pairPlan : List PlanEntry := (analyze (catalogOf kindedDocument) (templateOf pairSource)).plan

/-- Two module calls with a locator each. An input of the first one equals its default. -/
def pairText (first second : String) : String :=
  "module saModule '" ++ first ++ "' = \x7b\n  params: \x7b\n    kind: 'x'\n  \x7d\n\x7d\n" ++
    "module sbModule '" ++ second ++ "' = \x7b\n  params: \x7b\n    size: 2\n  \x7d\n\x7d\n"

/-- Only the second module call has another locator. -/
def strayedText : String := pairText "br:m/a" "br:m/b"

/-- Both module calls have another locator. -/
def hidingText : String := pairText "br:m/b" "br:m/b"

/-- What is said of a module call with the locator `br:m/b`. -/
def pairFinding (newSymbol : String) : Finding :=
  ⟨.error, .missingModuleBlock, "module '" ++ newSymbol ++ "' points at \"br:m/b\", expected 'br:m/a'", some newSymbol⟩

/-- What is read of the document, the resources and both texts, all at once. -/
theorem read_pair :
    ((buildEntries 0 kindedDocument.modules).isOk = true ∧
      (∀ mapping ∈ kindedDocument.modules, IsPlain mapping.module) ∧
      ∀ entry ∈ (catalogOf kindedDocument).entries, ∀ d ∈ entry.mapping.defaults, '.' ∉ d.1.toList) ∧
    (scan pairSource).isOk = true ∧
    ((scan strayedText).isOk = true ∧
      pairPlan.map (removedFlat (catalogOf kindedDocument) (templateOf strayedText)) = [["kind"], []] ∧
      (∀ e ∈ pairPlan, removedFlat (catalogOf kindedDocument) (templateOf strayedText) e ≠ [] →
        callTarget? (templateOf strayedText) e = some (some e.module)) ∧
      (pairPlan.filterMap fun e => missingFinding? e (callTarget? (templateOf strayedText) e)) =
        [pairFinding "sbModule"]) ∧
    (scan hidingText).isOk = true ∧
      (pairPlan.filterMap fun e => missingFinding? e (callTarget? (templateOf hidingText) e)) =
        [pairFinding "saModule", pairFinding "sbModule"] ∧
      (pairPlan.filterMap fun e =>
        if removedFlat (catalogOf kindedDocument) (templateOf hidingText) e = [] then
          missingFinding? e (callTarget? (templateOf hidingText) e)
        else none) = [pairFinding "sbModule"] := by
  decide +kernel

theorem ofDocument_kinded : ModuleCatalog.ofDocument kindedDocument = .ok (catalogOf kindedDocument) :=
  ofDocument_eq read_pair.1.1

theorem plainLocators_kinded : PlainLocators (catalogOf kindedDocument) :=
  plainLocators_ofDocument ofDocument_kinded read_pair.1.2.1

theorem scan_pair : scan pairSource = .ok (templateOf pairSource) := scan_eq read_pair.2.1

/-- The catalog has one default, and its path has no point. -/
theorem removedInputs_kinded (template : ScannedTemplate) :
    removedInputs (catalogOf kindedDocument) template = removedFlat (catalogOf kindedDocument) template :=
  removedInputs_of_flat read_pair.1.2.2

/-- Removing defaults loses nothing that is missing, if the module calls from which inputs are removed have the locators of
the plan. -/
theorem optimize_keeps_missing {document : Document} (hd : ModuleCatalog.ofDocument document = .ok catalog)
    (hplain : PlainLocators catalog) {source text : String} {migrated : ScannedTemplate}
    (h : scan source = .ok template) (hm : scan text = .ok migrated)
    (hlocators : ∀ e ∈ (analyze catalog template).plan, removedInputs catalog migrated e ≠ [] →
      callTarget? migrated e = some (some e.module)) :
    missingCalls (analyze catalog template).plan (optimize catalog (analyze catalog template).plan text).text =
      missingCalls (analyze catalog template).plan text := by
  rw [missingCalls_optimize hd hplain h hm, missingCalls_eq hm]
  refine List.filterMap_congr fun e he => ?_
  split
  · rfl
  · next hremoved =>
    rw [hlocators e he hremoved]
    exact (if_pos rfl).symm

theorem optimize_keeps_missing_pair :
    ModuleCatalog.ofDocument kindedDocument = .ok (catalogOf kindedDocument) ∧ PlainLocators (catalogOf kindedDocument) ∧
      scan pairSource = .ok (templateOf pairSource) ∧ scan strayedText = .ok (templateOf strayedText) ∧
      pairPlan.map (removedInputs (catalogOf kindedDocument) (templateOf strayedText)) = [["kind"], []] ∧
      (∀ e ∈ pairPlan, removedInputs (catalogOf kindedDocument) (templateOf strayedText) e ≠ [] →
        callTarget? (templateOf strayedText) e = some (some e.module)) ∧
      missingCalls pairPlan (optimize (catalogOf kindedDocument) pairPlan strayedText).text = [pairFinding "sbModule"] := by
  obtain ⟨-, -, ⟨hscan, hremoved, htargets, hmissing⟩, -⟩ := read_pair
  have hm := scan_eq hscan
  rw [← removedInputs_kinded] at hremoved htargets
  refine ⟨ofDocument_kinded, plainLocators_kinded, scan_pair, hm, hremoved, htargets, ?_⟩
  refine (optimize_keeps_missing ofDocument_kinded plainLocators_kinded scan_pair hm htargets).trans ?_
  exact (missingCalls_eq hm).trans hmissing

/-- Another locator is found before an input is removed from its module call, and not after. -/
theorem optimize_hides_locator :
    ModuleCatalog.ofDocument kindedDocument = .ok (catalogOf kindedDocument) ∧ PlainLocators (catalogOf kindedDocument) ∧
      scan pairSource = .ok (templateOf pairSource) ∧ scan hidingText = .ok (templateOf hidingText) ∧
      missingCalls pairPlan hidingText = [pairFinding "saModule", pairFinding "sbModule"] ∧
      missingCalls pairPlan (optimize (catalogOf kindedDocument) pairPlan hidingText).text = [pairFinding "sbModule"] := by
  obtain ⟨-, -, -, hscan, hmissing, hoptimized⟩ := read_pair
  have hm := scan_eq hscan
  refine ⟨ofDocument_kinded, plainLocators_kinded, scan_pair, hm, (missingCalls_eq hm).trans hmissing, ?_⟩
  rw [← removedInputs_kinded] at hoptimized
  exact (missingCalls_optimize ofDocument_kinded plainLocators_kinded scan_pair hm).trans hoptimized

end Pair

end BicepMigration.Migration
