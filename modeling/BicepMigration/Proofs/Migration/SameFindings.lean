import BicepMigration.Proofs.Migration.AnnouncedDeclarations
import BicepMigration.Proofs.Migration.CompleteRepair
import BicepMigration.Proofs.Migration.PrunedStops
import BicepMigration.Proofs.Migration.RetainedProperties
import BicepMigration.Proofs.Migration.SightedCalls

/-!
# What the checks of both artifacts find

Removing defaults does not change what the check of an artifact finds, apart from places. Both artifacts show the same
names, and in both of them all module calls are there. There are two ways to go wrong. A symbol directly after an opening
bracket and before a colon is a use, but not at the start of the line that it gets when its array is written anew. And
what is written anew or removed can part the word `resource` from a symbol by white space only.
-/

namespace BicepMigration.Migration

open Catalog Template Text

/-- What a diagnostic says, apart from the place in the text. -/
structure Finding where
  severity : Severity
  code : DiagnosticCode
  message : String
  symbol : Option String
  deriving DecidableEq, Repr

/-- A diagnostic without its line and its column. -/
def Diagnostic.finding (d : Diagnostic) : Finding := ⟨d.severity, d.code, d.message, d.location.symbol⟩

/-- What a report says, in order. -/
def Report.findings (report : Report) : List Finding := report.diagnostics.map Diagnostic.finding

/-- The findings of two reports together are those of both. -/
theorem Report.findings_append (a b : List Diagnostic) :
    (Report.mk (a ++ b)).findings = (Report.mk a).findings ++ (Report.mk b).findings := List.map_append

/-- What is counted is told by the findings. -/
theorem Report.count_eq (report : Report) (severity : Severity) :
    report.count severity = report.findings.countP (·.severity = severity) := by
  rw [Report.findings, List.countP_map]
  rfl

variable {catalog : ModuleCatalog} {template : ScannedTemplate}

section Checked

variable {plan : List PlanEntry} {text : String}

/-- What is said of a use of a replaced resource with its members. -/
def danglingFinding (used : String × List String) : Finding :=
  ⟨.error, .danglingReference, "'" ++ ".".intercalate (used.1 :: used.2) ++ "' refers to a replaced resource", some used.1⟩

/-- The uses of planned symbols in a template, as they are found. -/
def foundUses (plan : List PlanEntry) (template : ScannedTemplate) : List Finding :=
  ((findUses (plan.map (·.symbol)) template.tokens).map fun use => (use.symbol, use.path)).map danglingFinding

/-- Where all module calls are there and the word `resource` comes before no planned symbol, the check of an artifact
finds the uses of planned symbols and nothing else. -/
theorem findings_validate (h : scan text = .ok template) (hcalls : ∀ e ∈ plan, moduleFault? template e = none)
    (hnames : ∀ e ∈ plan, IsName e.symbol) (hannounced : announces (plan.map (·.symbol)) template.tokens = false) :
    (validate plan text).findings = foundUses plan template := by
  have hresiduals : residuals template plan = [] := by
    refine List.filterMap_eq_nil_iff.2 fun e he => ?_
    cases hd : declaration? template e with
    | none => rfl
    | some offset =>
      have hfound := announces_of_declaration? h hd (hnames e he) (List.mem_map_of_mem he)
      rw [hannounced] at hfound
      cases hfound
  have hfaults : plan.filterMap (moduleFault? template) = [] := List.filterMap_eq_nil_iff.2 hcalls
  rw [validate, h]
  simp only [validateScanned, hresiduals, hfaults, List.any_nil, Bool.not_false, List.filter_true, List.map_nil,
    List.nil_append, Report.findings, foundUses, List.map_map]
  rfl

end Checked

/-- A planned symbol is a name. -/
theorem isName_symbol {source : String} (h : scan source = .ok template) {e : PlanEntry}
    (he : e ∈ (analyze catalog template).plan) : IsName e.symbol := by
  obtain ⟨s, _, _, -, hs, hj, -⟩ := (planned_analyze catalog template).exists_judged he
  exact (statementHolds_of_scan h s (List.mem_of_getElem? hs)).symbol _ hj.symbol

/-- An artifact can be scanned. Its check finds the uses of planned symbols and nothing else, where the word `resource`
comes before none. -/
def FindsUses (plan : List PlanEntry) (text : String) : Prop :=
  ∃ scanned, scan text = .ok scanned ∧ (announces (plan.map (·.symbol)) scanned.tokens = false →
    (validate plan text).findings = foundUses plan scanned)

/-- In both artifacts the uses of planned symbols are found. -/
theorem findsUses_artifacts {document : Document} (hd : ModuleCatalog.ofDocument document = .ok catalog)
    (hplain : PlainLocators catalog) {source : String} (h : scan source = .ok template) {text : String}
    (ht : (transform catalog template (analyze catalog template)).text = text) :
    FindsUses (analyze catalog template).plan text ∧
      FindsUses (analyze catalog template).plan (optimize catalog (analyze catalog template).plan text).text := by
  obtain ⟨⟨migrated, hm, hcalls⟩, optimized, ho, hcalls'⟩ := exists_calls hd hplain h ht
  have hnames : ∀ e ∈ (analyze catalog template).plan, IsName e.symbol := fun e hmem => isName_symbol h hmem
  exact ⟨⟨migrated, hm, findings_validate hm hcalls hnames⟩, optimized, ho, findings_validate ho hcalls' hnames⟩

/-- A module call of the plan declares a new deployment. -/
theorem existing_of_migrated {migrated : ScannedTemplate} {text : String}
    (hall : List.Forall₂ (fun p s' => Migrated catalog template text p.2 p.1 s') template.statements.zipIdx
      migrated.statements) {e : PlanEntry} (he : e ∈ (analyze catalog template).plan) {s : Statement}
    (hs : migrated.find? .module e.newSymbol = some s) : s.existing = false := by
  obtain ⟨_, s', -, hfind, hsays⟩ := exists_call hall he
  obtain rfl := Option.some.inj (hs.symm.trans hfind)
  obtain ⟨_, _, _, t, -, -, -, -, hcall, hsense⟩ := hsays
  exact (congrArg (·.existing) hsense).trans hcall.existing

/-- Apart from places both checks of a result find the same, and the report about the output adds notices only. -/
structure SameFindings (r : Resolution) : Prop where
  /-- The checks find the same in both artifacts. -/
  findings : (validate r.transformation.plan r.output).findings =
    (validate r.transformation.plan r.transformation.text).findings
  errors : r.outputReport.errors = r.transformReport.errors
  warnings : r.outputReport.warnings = r.transformReport.warnings
  /-- What the report about the output says beyond the other report. -/
  notices : ∃ notices, r.outputReport.findings = r.transformReport.findings ++ notices ∧
    ∀ f ∈ notices, f.severity = .info ∧ f.code = .optimizationSkipped

/-- The reports follow the checks. -/
theorem sameFindings_of_validate {name : String} {r : Resolution} (hr : r = resolveScanned catalog name template)
    (h : (validate r.transformation.plan r.output).findings =
      (validate r.transformation.plan r.transformation.text).findings) : SameFindings r := by
  subst hr
  have hnotices := (@areNotices_optimize catalog) (analyze catalog template).plan
    (transform catalog template (analyze catalog template)).text
  have hreports : (resolveScanned catalog name template).outputReport.findings =
      (resolveScanned catalog name template).transformReport.findings ++
        (Report.mk (optimize catalog (analyze catalog template).plan
          (transform catalog template (analyze catalog template)).text).diagnostics).findings := by
    change (Report.mk (_ ++ _ ++ _)).findings = (Report.mk (_ ++ _)).findings ++ _
    rw [Report.findings_append, Report.findings_append, Report.findings_append]
    exact congrArg (_ ++ · ++ _) h
  have hcount (severity : Severity) (hs : severity ≠ .info) :
      (resolveScanned catalog name template).outputReport.count severity =
        (resolveScanned catalog name template).transformReport.count severity := by
    rw [Report.count_eq, Report.count_eq, hreports, List.countP_append, Nat.add_eq_left, List.countP_eq_zero]
    intro f hf
    obtain ⟨d, hd, rfl⟩ := List.mem_map.1 hf
    have hinfo : d.finding.severity = .info := (hnotices d hd).1
    simpa [hinfo] using hs.symm
  exact ⟨h, hcount .error (by decide), hcount .warning (by decide), _, hreports, fun f hf => by
    obtain ⟨d, hd, rfl⟩ := List.mem_map.1 hf
    exact hnotices d hd⟩

/-- The edit that removes defaults from a module call, where no path of a default has a point. -/
def flatEdit? (catalog : ModuleCatalog) (template : ScannedTemplate) (entry : PlanEntry) : Option Edit := do
  let mapping ← catalog.mapping? entry.mappingIndex
  if mapping.defaults.isEmpty then none
  let s ← template.find? .module entry.newSymbol
  let (body, params) ← paramsOf? s
  let pruned := pruneFlat mapping.defaults entry.newSymbol params
  let call := rewrittenCall entry s (replaceFirst "params" (.object pruned.kept) body)
  if pruned.removed.isEmpty then none else some ⟨s.span, call.render (.unedited template.source)⟩

/-- Without a point in the path of a default an edit takes inputs from the top only. -/
theorem elisionEdit?_of_flat (h : ∀ entry ∈ catalog.entries, ∀ d ∈ entry.mapping.defaults, '.' ∉ d.1.toList) :
    elisionEdit? catalog template = flatEdit? catalog template := by
  funext e
  unfold elisionEdit? elide? flatEdit?
  cases hm : catalog.mapping? e.mappingIndex with
  | none => rfl
  | some mapping =>
    obtain ⟨entry, hentry, rfl⟩ := Option.map_eq_some_iff.1 hm
    have hflat := prune_of_flat (h entry (List.mem_of_getElem? hentry))
    simp only [Option.bind_eq_bind, Option.bind_some, hflat]
    split
    · rfl
    · simp only [Option.bind_assoc, Option.bind_some]

/-- Removing defaults does not change what is found, if in the migrated text no planned symbol stands between an opening
bracket and a colon, and the word `resource` comes before none. -/
theorem optimize_keeps_findings {document : Document} (hd : ModuleCatalog.ofDocument document = .ok catalog)
    (hplain : PlainLocators catalog) {source : String} (h : scan source = .ok template)
    (hwords : ∀ e ∈ (analyze catalog template).plan, e.symbol ∉ literalWords) (name : String) :
    ∃ r migrated optimized, resolve catalog name source = .ok r ∧ scan r.transformation.text = .ok migrated ∧
      scan r.output = .ok optimized ∧
      (anyTriple (opensKey (plannedSymbols catalog template)) migrated.tokens = false →
        announces (plannedSymbols catalog template) migrated.tokens = false → SameFindings r) := by
  obtain ⟨hwritable, hlocators⟩ := writable_plan hd hplain h
  obtain ⟨⟨migrated, hm, hfound⟩, optimized, ho, hfound'⟩ := findsUses_artifacts hd hplain h rfl
  refine ⟨resolveScanned catalog name template, migrated, optimized, by rw [resolve, h]; rfl, hm, ho,
    fun hkeys hannounced => sameFindings_of_validate rfl ?_⟩
  obtain ⟨migrated', hm', hall⟩ := exists_migrated h (isChecked_ofDocument hd) hlocators rfl
  obtain rfl := Except.ok.inj (hm'.symm.trans hm)
  obtain ⟨parts, block, l, cs, l', he⟩ :=
    (@exists_isElision catalog) hm (planned_analyze catalog template).newSymbol_not_mem.2 hwritable
  have hsymbols : ∀ word ∈ literalWords, word ∉ plannedSymbols catalog template := by
    intro word hword hmem
    obtain ⟨e, he, rfl⟩ := List.mem_map.1 hmem
    exact hwords e he hword
  have halike := he.alike hm hwritable hlocators (fun e hmem s hs => existing_of_migrated hall hmem hs) hsymbols hkeys
  have hchars := he.chars
  rw [source_of_scan hm] at hchars
  obtain rfl := Except.ok.inj (ho.symm.trans (scan_of_layout hchars))
  rw [← spellings_tokensAt l.start, ← spellings_tokensAt l'.start] at halike
  rw [he.tokens] at hannounced
  rw [foundUses, he.tokens] at hfound
  refine (hfound' ((announces_eq_of_alike halike).symm.trans hannounced)).trans (Eq.trans ?_ (hfound hannounced).symm)
  exact congrArg (List.map danglingFinding) (findUses_eq_of_alike halike).symm

/-- A resource with a property that equals its default, and a use of it that is not repaired. -/
def danglingSource : String :=
  "resource sa 'T/a@2020-01-01' = \x7b\n  kind: 'x'\n  size: 2\n\x7d\nvar account = sa\n"

/-- What is found about the use. -/
def danglingAccount : Finding := danglingFinding ("sa", [])

/-- A dangling reference is reported for both artifacts. -/
theorem optimize_keeps_findings_dangling :
    ModuleCatalog.ofDocument sizedDocument = .ok (catalogOf sizedDocument) ∧
      PlainLocators (catalogOf sizedDocument) ∧ scan danglingSource = .ok (templateOf danglingSource) ∧
      (∀ e ∈ (analyze (catalogOf sizedDocument) (templateOf danglingSource)).plan, e.symbol ∉ literalWords) ∧
      ∃ r migrated, resolve (catalogOf sizedDocument) "main" danglingSource = .ok r ∧
        scan r.transformation.text = .ok migrated ∧
        anyTriple (opensKey (plannedSymbols (catalogOf sizedDocument) (templateOf danglingSource))) migrated.tokens = false ∧
        announces (plannedSymbols (catalogOf sizedDocument) (templateOf danglingSource)) migrated.tokens = false ∧
        SameFindings r ∧ (validate r.transformation.plan r.output).findings = [danglingAccount] := by
  have h : scan danglingSource = .ok (templateOf danglingSource) := scan_eq (by decide +kernel)
  have hwords : ∀ e ∈ (analyze (catalogOf sizedDocument) (templateOf danglingSource)).plan, e.symbol ∉ literalWords := by
    decide +kernel
  obtain ⟨r, migrated, _, hr, hm, -, hsame⟩ := optimize_keeps_findings ofDocument_sized plainLocators_sized h hwords "main"
  have htext : (transform (catalogOf sizedDocument) (templateOf danglingSource)
      (analyze (catalogOf sizedDocument) (templateOf danglingSource))).text =
        sizedCall ++ "var account = sa\n" := by
    rw [transform_of_inputs_nil (by decide +kernel)]
    decide +kernel
  have hresolved : r = resolveScanned (catalogOf sizedDocument) "main" (templateOf danglingSource) := by
    rw [resolve, h] at hr
    exact (Except.ok.inj hr).symm
  have hmigrated : migrated = templateOf (sizedCall ++ "var account = sa\n") := by
    rw [hresolved] at hm
    change scan (transform _ _ _).text = _ at hm
    rw [htext] at hm
    exact Except.ok.inj (hm.symm.trans (scan_eq (by decide +kernel)))
  obtain ⟨hkeys, hannounced⟩ :
      anyTriple (opensKey (plannedSymbols (catalogOf sizedDocument) (templateOf danglingSource))) migrated.tokens = false ∧
        announces (plannedSymbols (catalogOf sizedDocument) (templateOf danglingSource)) migrated.tokens = false := by
    rw [hmigrated]
    decide +kernel
  refine ⟨ofDocument_sized, plainLocators_sized, h, hwords, r, migrated, hr, hm, hkeys, hannounced,
    hsame hkeys hannounced, ?_⟩
  rw [(hsame hkeys hannounced).findings, hresolved]
  change (validate (analyze _ _).plan (transform _ _ _).text).findings = _
  rw [htext]
  decide +kernel

section Loop

/-- A document with a default. -/
def kindedDocument : Document := ⟨defaultSchemaVersion, [{ accountMapping with defaults := [("kind", .string "x")] }]⟩

/-- A resource that has the name of a keyword, and another one in which an array starts with that name. The array has
the other name after an opening bracket and before a colon. -/
def loopSource : String :=
  "resource for 'T/a@2020-01-01' = \x7b\n\x7d\n" ++
    "resource sa 'T/a@2020-01-01' = \x7b\n  x: [for.id, [sa: 1]]\n  kind: 'x'\n\x7d\n"

/-- The module calls. The array starts with another name now, so that its elements are read. -/
def loopText : String :=
  "module forModule 'br:m/a' = \x7b\n  name: 'forModule'\n  params: \x7b\x7d\n\x7d\n" ++
    "module saModule 'br:m/a' = \x7b\n  name: 'saModule'\n  params: \x7b\n" ++
    "    x: [forModule.outputs.id, [sa: 1]]\n    kind: 'x'\n  \x7d\n\x7d\n"

/-- The module calls without the default, in which each element of the array has its line. -/
def loopOutput : String :=
  "module forModule 'br:m/a' = \x7b\n  name: 'forModule'\n  params: \x7b\x7d\n\x7d\n" ++
    "module saModule 'br:m/a' = \x7b\n  name: 'saModule'\n  params: \x7b\n" ++
    "    x: [\n      forModule.outputs.id\n      [\n        sa: 1\n      ]\n    ]\n  \x7d\n\x7d\n"

theorem transform_loop : (transform (catalogOf kindedDocument) (templateOf loopSource)
    (analyze (catalogOf kindedDocument) (templateOf loopSource))).text = loopText := by
  rw [transform_of_inputs_nil (by decide +kernel), EditedText.ofEdits_of_perm List.perm_append_comm (by decide +kernel)]
  decide +kernel

/-- The default is removed, and before that one use is found. -/
theorem optimize_loop {migrated : ScannedTemplate} (h : scan loopText = .ok migrated) :
    (optimize (catalogOf kindedDocument) (analyze (catalogOf kindedDocument) (templateOf loopSource)).plan
        loopText).text = loopOutput ∧
      announces ["for", "sa"] (templateOf loopText).tokens = false ∧
      ((findUses ["for", "sa"] (templateOf loopText).tokens).map fun use => (use.symbol, use.path)) = [("sa", [])] := by
  rw [optimize_text h, elisionEdit?_of_flat (by decide +kernel), ← templateOf_eq h]
  decide +kernel

/-- A use is found in the migrated text and not in the output, where it stands like a key. No planned symbol follows the
word `resource` but in its own declaration. -/
theorem optimize_changes_findings :
    ModuleCatalog.ofDocument kindedDocument = .ok (catalogOf kindedDocument) ∧ PlainLocators (catalogOf kindedDocument) ∧
      scan loopSource = .ok (templateOf loopSource) ∧
      (∀ e ∈ (analyze (catalogOf kindedDocument) (templateOf loopSource)).plan, e.symbol ∉ literalWords) ∧
      (templateOf loopSource).tokens.countP (·.isWord "resource") =
        (analyze (catalogOf kindedDocument) (templateOf loopSource)).plan.length ∧
      ∃ r, resolve (catalogOf kindedDocument) "main" loopSource = .ok r ∧
        (validate r.transformation.plan r.transformation.text).findings = [danglingAccount] ∧
        (validate r.transformation.plan r.output).findings = [] := by
  have hd : ModuleCatalog.ofDocument kindedDocument = .ok (catalogOf kindedDocument) := ofDocument_eq (by decide +kernel)
  have hplain : PlainLocators (catalogOf kindedDocument) := plainLocators_ofDocument hd (by decide +kernel)
  obtain ⟨hscan, hsymbols, hcount⟩ : (scan loopSource).isOk = true ∧
      plannedSymbols (catalogOf kindedDocument) (templateOf loopSource) = ["for", "sa"] ∧
      (templateOf loopSource).tokens.countP (·.isWord "resource") =
        (analyze (catalogOf kindedDocument) (templateOf loopSource)).plan.length := by decide +kernel
  have h : scan loopSource = .ok (templateOf loopSource) := scan_eq hscan
  have hwords : ∀ e ∈ (analyze (catalogOf kindedDocument) (templateOf loopSource)).plan, e.symbol ∉ literalWords := by
    intro e he
    have hmem : e.symbol ∈ plannedSymbols (catalogOf kindedDocument) (templateOf loopSource) := List.mem_map_of_mem he
    rw [hsymbols] at hmem
    exact (by decide : ∀ symbol ∈ ["for", "sa"], symbol ∉ literalWords) _ hmem
  obtain ⟨⟨migrated, hm, hfound⟩, hoptimized⟩ := findsUses_artifacts hd hplain h transform_loop
  obtain ⟨houtput, hannounced, hused⟩ := optimize_loop hm
  rw [houtput] at hoptimized
  obtain ⟨optimized, ho, hfound'⟩ := hoptimized
  change announces (plannedSymbols _ _) _ = _ → _ = ((findUses (plannedSymbols _ _) _).map _).map _ at hfound hfound'
  rw [hsymbols, ← templateOf_eq hm] at hfound
  rw [hsymbols, ← templateOf_eq ho] at hfound'
  obtain ⟨hannounced', hused'⟩ : announces ["for", "sa"] (templateOf loopOutput).tokens = false ∧
      ((findUses ["for", "sa"] (templateOf loopOutput).tokens).map fun use => (use.symbol, use.path)) = [] := by
    decide +kernel
  refine ⟨hd, hplain, h, hwords, hcount, _, by rw [resolve, h]; rfl, ?_⟩
  change (validate (analyze _ _).plan (transform _ _ _).text).findings = _ ∧
    (validate (analyze _ _).plan (optimize _ _ (transform _ _ _).text).text).findings = []
  rw [transform_loop, houtput, hfound hannounced, hfound' hannounced', hused, hused']
  exact ⟨rfl, rfl⟩

end Loop

end BicepMigration.Migration
