import BicepMigration.Migration.Resolution
import BicepMigration.Proofs.Migration.ElidedText
import BicepMigration.Proofs.Migration.Frame

/-!
# Artifacts can be scanned

Both texts that a migration makes can be scanned again, and no report says otherwise, if the locators of the plan can
be read between quotes. The check of a catalog refuses quotes in locators only: a locator that ends with a backslash
passes it and breaks the text. What the artifacts say is not spoken about here.
-/

namespace BicepMigration.Migration

open Catalog Template

variable {catalog : ModuleCatalog} {template : ScannedTemplate}

/-- The locators of the plan can be read between quotes. -/
def ReadableLocators (catalog : ModuleCatalog) (template : ScannedTemplate) : Prop :=
  ∀ e ∈ (analyze catalog template).plan, IsReadable e.module

/-- What is planned can be written: the symbol is a name, and the locator stands between quotes. -/
theorem isWritable_of_mem_plan {source : String} (h : scan source = .ok template) (hc : IsChecked catalog)
    (hr : ReadableLocators catalog template) : ∀ e ∈ (analyze catalog template).plan, IsWritable e := by
  intro e he
  obtain ⟨s, body, mapping, -, -, hj, hmodule, -⟩ := (planned_analyze catalog template).exists_judged he
  refine ⟨isName_newSymbol h he, ?_, hr e he⟩
  rw [hmodule]
  exact (tables_of_fault (hc _ _ hj.mapping)).2.2.1

/-- A migrated template can be scanned. -/
theorem scan_transform {source : String} (h : scan source = .ok template) (hc : IsChecked catalog)
    (hr : ReadableLocators catalog template) :
    ∃ migrated, scan (transform catalog template (analyze catalog template)).text = .ok migrated := by
  obtain ⟨parts, block, l, cs, l', hm⟩ := exists_isMigration h hc hr
  exact ⟨_, scan_of_layout hm.chars⟩

/-- An optimized template can be scanned. -/
theorem scan_optimize {source migrated : String} {template' : ScannedTemplate} (h : scan source = .ok template)
    (hc : IsChecked catalog) (hr : ReadableLocators catalog template) (hm : scan migrated = .ok template') :
    ∃ optimized, scan (optimize catalog (analyze catalog template).plan migrated).text = .ok optimized := by
  obtain ⟨parts, block, l, cs, l', he⟩ := exists_isElision hm (planned_analyze catalog template).newSymbol_not_mem.2
    (isWritable_of_mem_plan h hc hr)
  rw [← source_of_scan hm]
  exact ⟨_, scan_of_layout he.chars⟩

section Diagnostics

/-- No diagnostic is about a text that cannot be scanned. -/
def Scannable (diagnostics : List Diagnostic) : Prop := ∀ d ∈ diagnostics, d.code ≠ .unscannableArtifact

/-- Two lists of findings without an unscannable artifact have none together. -/
theorem Scannable.append {a b : List Diagnostic} (ha : Scannable a) (hb : Scannable b) : Scannable (a ++ b) := by
  intro d hd
  exact (List.mem_append.1 hd).elim (ha d) (hb d)

/-- Findings of other codes are about no unscannable artifact. -/
theorem Scannable.map {α : Type} {f : α → Diagnostic} (h : ∀ a, (f a).code ≠ .unscannableArtifact) (as : List α) :
    Scannable (as.map f) := by
  intro d hd
  obtain ⟨a, -, rfl⟩ := List.mem_map.1 hd
  exact h a

/-- The analysis reports no unscannable artifact. -/
theorem scannable_analyze (catalog : ModuleCatalog) (template : ScannedTemplate) :
    Scannable (analyze catalog template).diagnostics := by
  intro d hd
  rcases (isPlanWarning_analyze catalog template d hd).code_eq with h | h <;> simp [h]

/-- The checks of a scanned template report no unscannable artifact. -/
theorem scannable_validateScanned (plan : List PlanEntry) (template : ScannedTemplate) :
    Scannable (validateScanned plan template).diagnostics := by
  refine .append (.append (.map (by simp [residualError]) _) fun d hd => ?_) (.map (by simp [danglingError]) _)
  obtain ⟨e, -, hd⟩ := List.mem_filterMap.1 hd
  unfold moduleFault? at hd
  repeat' split at hd
  all_goals
    simp only [Option.some.injEq, reduceCtorEq] at hd
    try (subst hd; simp)

/-- The check of a text that can be scanned finds no text that cannot. -/
theorem scannable_validate {plan : List PlanEntry} {text : String} (h : scan text = .ok template) :
    Scannable (validate plan text).diagnostics := by
  rw [validate, h]
  exact scannable_validateScanned plan template

/-- The diagnostics are notices about inputs that are kept. -/
def AreNotices (diagnostics : List Diagnostic) : Prop :=
  ∀ d ∈ diagnostics, d.severity = .info ∧ d.code = .optimizationSkipped

/-- A comparison with a default reports notices only. -/
theorem areNotices_pruneAgainst (module path : String) (default : Json) (p : Property Value) :
    AreNotices (pruneAgainst module path default p).diagnostics := by
  unfold pruneAgainst
  split
  · simp [AreNotices]
  · simp [Pruning.keep, AreNotices]
  · simp [AreNotices, skippedNotice]

/-- The walk over inputs reports notices only. -/
theorem areNotices_prune (defaults : List (String × Json)) (module parent : String) :
    (ps : List (Property Value)) → AreNotices (prune defaults module parent ps).diagnostics
  | [] => by simp [prune, Pruning.empty, AreNotices]
  | ⟨key, quoted, value, line⟩ :: rest => by
    have hrest := areNotices_prune defaults module parent rest
    unfold prune
    refine List.forall_mem_append.2 ⟨?_, hrest⟩
    have hkeep : AreNotices (Pruning.keep ⟨key, quoted, value, line⟩).diagnostics := by
      simp [Pruning.keep, AreNotices]
    cases he : Json.entry? defaults (childPath parent key) with
    | some default => exact areNotices_pruneAgainst module _ default _
    | none =>
      cases value with
      | object entries =>
        have hinner := areNotices_prune defaults module (childPath parent key) entries
        simp only
        split
        · exact hinner
        · exact hkeep
      | _ => exact hkeep

/-- Removing defaults reports notices and nothing else. -/
theorem areNotices_optimize (plan : List PlanEntry) (text : String) :
    AreNotices (optimize catalog plan text).diagnostics := by
  unfold optimize
  split
  · simp [AreNotices]
  · intro d hd
    obtain ⟨elision, he, hd⟩ := List.mem_flatMap.1 hd
    obtain ⟨e, -, he⟩ := List.mem_filterMap.1 he
    obtain ⟨s, mapping, body, params, -, -, -, -, hdiagnostics, -⟩ := elide?_cases he
    exact areNotices_prune _ _ _ _ d (hdiagnostics ▸ hd)

/-- The removal of defaults reports no unscannable artifact, if the text can be scanned. -/
theorem scannable_optimize (plan : List PlanEntry) (text : String) :
    Scannable (optimize catalog plan text).diagnostics := fun d hd => by
  rw [(areNotices_optimize plan text d hd).2]
  decide

/-- Planning and the check of an artifact find no text that cannot be scanned, if the artifact can be. -/
theorem scannable_report {artifact : ScannedTemplate} {text : String} (h : scan text = .ok artifact) :
    Scannable ((analyze catalog template).diagnostics ++ (validate (analyze catalog template).plan text).diagnostics) :=
  .append (scannable_analyze catalog template) (scannable_validate h)

end Diagnostics

/-- The migration reports no unscannable artifact. -/
theorem scannable_transform (catalog : ModuleCatalog) (template : ScannedTemplate) (analysis : Analysis) :
    Scannable (transform catalog template analysis).diagnostics := by
  intro d hd
  obtain ⟨outcome, houtcome, hd⟩ := List.mem_filterMap.1 hd
  obtain ⟨use, -, hrepair⟩ := List.mem_filterMap.1 houtcome
  obtain ⟨e, _, -, -, ⟨text, -, rfl⟩ | ⟨-, rfl⟩⟩ := repairEdit?_cases hrepair
  · cases hd
  · obtain rfl := Option.some.inj hd
    simp [unresolvedError]

section EmptyBodies

/-- The body of the module call for a resource without properties. -/
def emptyBody (newSymbol : String) : ObjectLiteral :=
  [.plain "name" (.string ⟨quote newSymbol, none⟩), .plain "params" (.object [])]

/-- A resource without properties becomes a call with a name and no inputs. -/
theorem moduleBody_nil (newSymbol : String) (mapping : Mapping) :
    moduleBody newSymbol (partition mapping []) = emptyBody newSymbol := by
  simp [moduleBody, partition, divide, Partition.hoisted?, moduleParams, Division.empty, emptyBody]

/-- The edit that replaces a resource without properties. -/
def emptyEdit? (catalog : ModuleCatalog) (template : ScannedTemplate) (edited : EditedText) (entry : PlanEntry) :
    Option Edit := do
  let s ← template.statements[entry.statementIndex]?
  let _ ← s.body
  let mapping ← catalog.mapping? entry.mappingIndex
  some ⟨s.span, ModuleCall.render edited
    { decorators := (s.decorators.filter isCarried).map edited.fragment
      symbol := entry.newSymbol
      locator := mapping.module
      condition := s.condition.map edited.fragment
      body := emptyBody entry.newSymbol }⟩

/-- All bodies of a template are empty. -/
def EmptyBodies (template : ScannedTemplate) : Prop :=
  template.statements.all (fun s => s.body.all List.isEmpty) = true

instance (template : ScannedTemplate) : Decidable (EmptyBodies template) := inferInstanceAs (Decidable (_ = true))

/-- Where no resource has properties, every call is such a one. -/
theorem replacementEdit?_of_emptyBodies (h : EmptyBodies template) :
    replacementEdit? catalog template = emptyEdit? catalog template := by
  funext edited entry
  refine Option.bind_congr fun s hs => Option.bind_congr fun body hb => ?_
  have hall := List.all_eq_true.1 h s (List.mem_of_getElem? hs)
  rw [hb] at hall
  obtain rfl : body = [] := by simpa using hall
  simp only [moduleCall, moduleBody_nil]

/-- The text of a migrated template whose resources have no properties. -/
theorem transform_of_emptyBodies (h : EmptyBodies template) :
    (transform catalog template (analyze catalog template)).text = (EditedText.ofEdits template.source
      (referenceEdits catalog (analyze catalog template) ++ (analyze catalog template).plan.filterMap (emptyEdit?
        catalog template (.ofEdits template.source (referenceEdits catalog (analyze catalog template)))))).apply := by
  rw [transform_text, callEdits, replacementEdit?_of_emptyBodies h]

end EmptyBodies

/-- The catalog that is built from a document, if it passes the checks. -/
def catalogOf (document : Document) : ModuleCatalog :=
  ⟨(buildEntries 0 document.modules).toOption.getD [], Fingerprint.ofJson document.toJson⟩

/-- A catalog that can be built is known by its document. -/
theorem ofDocument_eq {document : Document} (h : (buildEntries 0 document.modules).isOk = true) :
    ModuleCatalog.ofDocument document = .ok (catalogOf document) := by
  unfold ModuleCatalog.ofDocument catalogOf
  cases hb : buildEntries 0 document.modules with
  | error e =>
    rw [hb] at h
    cases h
  | ok entries => rfl

/-- A document with one mapping. -/
def accountDocument : Document := ⟨defaultSchemaVersion, [accountMapping]⟩

/-- A document with a locator that ends with a backslash. -/
def slashDocument : Document := ⟨defaultSchemaVersion, [{ accountMapping with module := "br:a\\" }]⟩

/-- A template with a resource of the mapped type. -/
def slashSource : String := "resource sa 'T/a@2020-01-01' = \x7b\n\x7d\n"

/-- Both artifacts can be scanned if the locators of the plan can be read between quotes, and no report says that an
artifact cannot. -/
theorem resolve_scans {document : Document} (hd : ModuleCatalog.ofDocument document = .ok catalog) (name : String)
    {source : String} (h : scan source = .ok template) (hr : ReadableLocators catalog template) :
    ∃ r, resolve catalog name source = .ok r ∧ (∃ migrated, scan r.transformation.text = .ok migrated) ∧
      (∃ optimized, scan r.output = .ok optimized) ∧ Scannable r.transformation.diagnostics ∧
      Scannable r.transformReport.diagnostics ∧ Scannable r.outputReport.diagnostics := by
  have hc := isChecked_ofDocument hd
  obtain ⟨migrated, hm⟩ := scan_transform h hc hr
  obtain ⟨optimized, ho⟩ := scan_optimize h hc hr hm
  refine ⟨resolveScanned catalog name template, by rw [resolve, h]; rfl, ⟨migrated, hm⟩, ⟨optimized, ho⟩, ?_, ?_, ?_⟩
  · exact .append (scannable_analyze catalog template) (scannable_transform catalog template _)
  · exact scannable_report hm
  · exact .append (scannable_report ho) (scannable_optimize _ _)

/-- A resource without properties is migrated, and both artifacts can be scanned. -/
theorem resolve_scans_account :
    ModuleCatalog.ofDocument accountDocument = .ok (catalogOf accountDocument) ∧
      scan accountSource = .ok (templateOf accountSource) ∧
      ReadableLocators (catalogOf accountDocument) (templateOf accountSource) ∧
      ∃ r, resolve (catalogOf accountDocument) "main" accountSource = .ok r ∧
        (∃ migrated, scan r.transformation.text = .ok migrated) ∧ ∃ optimized, scan r.output = .ok optimized := by
  have hd : ModuleCatalog.ofDocument accountDocument = .ok (catalogOf accountDocument) :=
    ofDocument_eq (by decide +kernel)
  have h : scan accountSource = .ok (templateOf accountSource) := scan_eq (by decide +kernel)
  have hall : ((analyze (catalogOf accountDocument) (templateOf accountSource)).plan.all fun e =>
      decide (IsReadable e.module)) = true := by decide +kernel
  have hr : ReadableLocators (catalogOf accountDocument) (templateOf accountSource) := by
    simpa [ReadableLocators] using hall
  obtain ⟨r, hresolve, hm, ho, -⟩ := resolve_scans hd "main" h hr
  exact ⟨hd, h, hr, r, hresolve, hm, ho⟩

/-- A locator that the checks of a catalog let pass breaks both artifacts. -/
theorem resolve_breaks_slash :
    ModuleCatalog.ofDocument slashDocument = .ok (catalogOf slashDocument) ∧
      ∃ r, resolve (catalogOf slashDocument) "main" slashSource = .ok r ∧
        (∀ migrated, scan r.transformation.text ≠ .ok migrated) ∧ (∀ optimized, scan r.output ≠ .ok optimized) ∧
        ¬ Scannable r.transformReport.diagnostics ∧ ¬ Scannable r.outputReport.diagnostics := by
  have h : scan slashSource = .ok (templateOf slashSource) := scan_eq (by decide +kernel)
  have hbroken : (scan (transform (catalogOf slashDocument) (templateOf slashSource)
      (analyze (catalogOf slashDocument) (templateOf slashSource))).text).isOk = false := by
    rw [transform_of_emptyBodies (by decide +kernel)]
    decide +kernel
  obtain ⟨error, herror⟩ : ∃ error, scan (resolveScanned (catalogOf slashDocument) "main"
      (templateOf slashSource)).transformation.text = .error error := by
    cases hs : scan (transform (catalogOf slashDocument) (templateOf slashSource)
        (analyze (catalogOf slashDocument) (templateOf slashSource))).text with
    | error error => exact ⟨error, hs⟩
    | ok migrated =>
      rw [hs] at hbroken
      cases hbroken
  -- a text that cannot be scanned is not optimized
  have houtput : (resolveScanned (catalogOf slashDocument) "main" (templateOf slashSource)).output =
      (resolveScanned (catalogOf slashDocument) "main" (templateOf slashSource)).transformation.text := by
    change (optimize _ _ _).text = _
    rw [optimize]
    change scan (transform _ _ _).text = _ at herror
    rw [herror]
    rfl
  have hvalidate : ¬ Scannable (validate (analyze (catalogOf slashDocument) (templateOf slashSource)).plan
      (resolveScanned (catalogOf slashDocument) "main" (templateOf slashSource)).transformation.text).diagnostics := by
    rw [validate, herror]
    exact fun hs => hs _ (List.mem_singleton_self _) rfl
  refine ⟨ofDocument_eq (by decide +kernel), _, by rw [resolve, h]; rfl, fun migrated hm => ?_, fun optimized ho => ?_,
    fun hs => hvalidate fun d hd => hs d (List.mem_append_right _ hd), fun hs => hvalidate fun d hd => ?_⟩
  · rw [herror] at hm
    cases hm
  · rw [houtput, herror] at ho
    cases ho
  · rw [← houtput] at hd
    exact hs d (List.mem_append_left _ (List.mem_append_right _ hd))

end BicepMigration.Migration
