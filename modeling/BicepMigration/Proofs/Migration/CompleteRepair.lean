import BicepMigration.Proofs.Migration.CallUses
import BicepMigration.Proofs.Migration.ClosedBodies
import BicepMigration.Proofs.Migration.Correspondence
import BicepMigration.Proofs.Template.NextUse

/-!
# Repair is complete

If all references to planned resources are repaired then nothing in the migrated template refers to them any more, and
every module call of the plan is there and closed. The same holds of the optimized template. A member may not be named
like a word that declares something if a planned symbol follows it: the symbol then does not count as a use, but it
does after the member is repaired.
-/

namespace BicepMigration.Migration

open Catalog Template Text

variable {catalog : ModuleCatalog} {template : ScannedTemplate}

section Calls

/-- A module with its locator and a body is as it should be. -/
theorem moduleFault?_eq_none {source : String} (h : scan source = .ok template) {e : PlanEntry} {s : Statement}
    (hfind : template.find? .module e.newSymbol = some s) (htarget : s.target = some e.module) (hbody : s.body.isSome) :
    moduleFault? template e = none := by
  have hbrace := endsWithBrace_of_body h (ScannedTemplate.mem_of_find? hfind).1 hbody
  rw [moduleFault?, hfind]
  simp [htarget, hbrace, Option.isNone_iff_eq_none, Option.isSome_iff_ne_none.1 hbody]

variable {source : String}

/-- The module calls of a plan are there, in the migrated template and in the optimized one. -/
theorem exists_calls {document : Document} (hd : ModuleCatalog.ofDocument document = .ok catalog)
    (hplain : PlainLocators catalog) (h : scan source = .ok template) {text : String}
    (ht : (transform catalog template (analyze catalog template)).text = text) :
    (∃ migrated, scan text = .ok migrated ∧ ∀ e ∈ (analyze catalog template).plan, moduleFault? migrated e = none) ∧
      ∃ optimized, scan (optimize catalog (analyze catalog template).plan text).text = .ok optimized ∧
        ∀ e ∈ (analyze catalog template).plan, moduleFault? optimized e = none := by
  obtain ⟨hwritable, hplan⟩ := writable_plan hd hplain h
  have hsymbols := (planned_analyze catalog template).newSymbol_not_mem.2
  obtain ⟨migrated, hmigrated, hall⟩ := exists_migrated h (isChecked_ofDocument hd) hplan ht
  obtain ⟨optimized, hoptimized, helides⟩ := (@exists_elides catalog) hmigrated hsymbols hwritable hplan
  have hcall : ∀ e ∈ (analyze catalog template).plan, ∃ s s', migrated.find? .module e.newSymbol = some s' ∧
      CallsModule catalog e s s' := fun e he => by
    obtain ⟨s, s', -, hfind, hsays⟩ := exists_call hall he
    exact ⟨s, s', hfind, hsays.callsModule⟩
  refine ⟨⟨migrated, hmigrated, fun e he => ?_⟩, optimized, hoptimized, fun e he => ?_⟩
  · obtain ⟨s, s', hfind, hcalls⟩ := hcall e he
    obtain ⟨_, _, body, _, -, -, hbody, -⟩ := hcalls.body
    exact moduleFault?_eq_none hmigrated hfind hcalls.target (by rw [hbody]; rfl)
  · obtain ⟨s, s', hfind, hcalls⟩ := hcall e he
    obtain ⟨mapping, _, body, params, hmapping, -, hbody, -, hparams, -⟩ := hcalls.body
    obtain ⟨s'', hfind', htarget, hsense⟩ :=
      HasInputs.exists_left ⟨hmapping, hfind, hbody, hparams⟩ he hsymbols helides
    refine moduleFault?_eq_none hoptimized hfind' ?_ ?_
    · exact htarget.elim (fun ht => ht.trans hcalls.target) id
    · have hsome := congrArg (·.body.isSome) hsense
      simpa [Statement.sense] using hsome

end Calls

section Uses

variable {plan : List PlanEntry} {text : String} {l : Layout}

/-- The uses that are found in a text are those among its lexemes. -/
theorem findUses_eq_nil_iff (ht : text.toList = l.chars) (h : scan text = .ok template) {symbols : List String} :
    findUses symbols template.tokens = [] ↔ ¬ HasUse false symbols .key l.lexemes false := by
  rw [scan_of_layout ht] at h
  obtain rfl := Except.ok.inj h
  exact usesFrom_eq_nil_iff

/-- A migrated text that is optimized, with the layouts of both texts: the uses that are found in them are those among
their lexemes. -/
theorem exists_elision_uses (hw : ∀ e ∈ (analyze catalog template).plan, IsWritable e) {migrated optimized : ScannedTemplate}
    (hm : scan text = .ok migrated)
    (ho : scan (optimize catalog (analyze catalog template).plan text).text = .ok optimized) :
    ∃ parts block k cs k', IsElision catalog migrated (analyze catalog template).plan parts block k cs k' ∧
      (∀ symbols, findUses symbols migrated.tokens = [] ↔ ¬ HasUse false symbols .key k.lexemes false) ∧
      ∀ symbols, findUses symbols optimized.tokens = [] ↔ ¬ HasUse false symbols .key k'.lexemes false := by
  obtain ⟨parts, block, k, cs, k', he⟩ :=
    (@exists_isElision catalog) hm (planned_analyze catalog template).newSymbol_not_mem.2 hw
  have hsource := source_of_scan hm
  have hchars := he.chars
  have hchars' := he.source
  rw [hsource] at hchars hchars'
  exact ⟨parts, block, k, cs, k', he, fun _ => findUses_eq_nil_iff hchars' hm, fun _ => findUses_eq_nil_iff hchars ho⟩

/-- Without uses of planned symbols and with all module calls, only a planned resource can still be declared. -/
theorem code_of_validate (h : scan text = .ok template) (hcalls : ∀ e ∈ plan, moduleFault? template e = none)
    (hu : findUses (plan.map (·.symbol)) template.tokens = []) :
    ∀ d ∈ (validate plan text).diagnostics, d.code = .residualDeclaration := by
  intro d hd
  rw [validate, h] at hd
  have hnone : findUses ((plan.map (·.symbol)).filter fun symbol =>
      !(residuals template plan).any (·.1.symbol = symbol)) template.tokens = [] :=
    findUses_eq_nil_of_subset (List.filter_sublist.subset) hu
  have hfaults : plan.filterMap (moduleFault? template) = [] := List.filterMap_eq_nil_iff.2 hcalls
  simp only [validateScanned, hnone, hfaults, List.map_nil, List.append_nil] at hd
  obtain ⟨⟨e, offset⟩, -, rfl⟩ := List.mem_map.1 hd
  rfl

end Uses

section Repaired

/-- Something is written in place of every reference. -/
def RepairsAll (catalog : ModuleCatalog) (template : ScannedTemplate) : Prop :=
  ∀ use ∈ (analyze catalog template).references,
    ((repairEdit? catalog (analyze catalog template) use).bind edit?).isSome

instance : Decidable (RepairsAll catalog template) :=
  inferInstanceAs (Decidable (∀ use ∈ (analyze catalog template).references,
    ((repairEdit? catalog (analyze catalog template) use).bind edit?).isSome))

/-- No planned symbol is used in its own declaration. -/
def SparesOwn (catalog : ModuleCatalog) (template : ScannedTemplate) : Prop :=
  ∀ use ∈ findUses (plannedSymbols catalog template) template.tokens, ∀ e ∈ (analyze catalog template).plan,
    e.declares template.statements use = false

instance : Decidable (SparesOwn catalog template) :=
  inferInstanceAs (Decidable (∀ use ∈ findUses (plannedSymbols catalog template) template.tokens,
    ∀ e ∈ (analyze catalog template).plan, e.declares template.statements use = false))

/-- A use without members is repaired only where it orders deployments. -/
theorem dependsOn_of_repair {use : SymbolUse} {r : Lexeme × List Lexeme} (h : repair catalog template use = some r)
    (hp : use.path = []) : use.dependsOn = true := by
  obtain ⟨new, more⟩ := r
  obtain ⟨e, mapping, names, -, -, -, hnames, -⟩ := repairLexemes?_cases h
  rw [repairNames?, hp] at hnames
  by_contra hd
  simp [hd] at hnames

/-- If all references are repaired, and no symbol is used in its own declaration, all uses are replaced. -/
theorem repair_ne_none (hall : RepairsAll catalog template) (hown : SparesOwn catalog template) {before after : List Token}
    {t : Token} (ht : template.tokens = before.reverse ++ t :: after) {use : SymbolUse}
    (hu : useAt? (plannedSymbols catalog template) before t after = some use) : repair catalog template use ≠ none := by
  have hfound : use ∈ findUses (plannedSymbols catalog template) template.tokens := by
    rw [findUses, mem_usesFrom_iff, ht]
    exact .of_place (by simpa using hu)
  have hdeclares : ((analyze catalog template).plan.any fun e => e.declares template.statements use) = false := by
    rw [List.any_eq_false]
    exact fun e he => by simp [hown use hfound e he]
  have href : use ∈ (analyze catalog template).references :=
    List.mem_filter.2 ⟨hfound, congrArg (!·) hdeclares⟩
  obtain ⟨edit, hedit⟩ := Option.isSome_iff_exists.1 (hall use href)
  obtain ⟨outcome, houtcome, hok⟩ := Option.bind_eq_some_iff.1 hedit
  obtain ⟨e, mapping, he, hmapping, ⟨text, hsome, -⟩ | ⟨-, rfl⟩⟩ := repairEdit?_cases houtcome
  · rw [repair?_eq, Option.map_eq_some_iff] at hsome
    obtain ⟨names, hnames, -⟩ := hsome
    rw [repair, repairLexemes?, hdeclares]
    simp [he, hmapping, hnames]
  · cases hok

variable {l : Layout}

/-- Where all uses are replaced none stays. -/
theorem not_occurs_keptUse (hall : RepairsAll catalog template) (hown : SparesOwn catalog template) {strict : Bool} :
    ¬ Occurs (KeptUse strict (plannedSymbols catalog template) (repair catalog template)) [] template.tokens [] := by
  intro ho
  obtain ⟨a, t, b, ht, hk⟩ := ho.exists_place
  rw [List.append_nil, List.append_nil] at hk
  obtain ⟨use, hu, hnone⟩ := hk.exists_use
  exact repair_ne_none hall hown (by simpa using ht) hu hnone

/-- Where all uses are replaced no symbol stays after one, unless it follows a member that is named like a word that
declares something. -/
theorem sparesNext_repairs (hall : RepairsAll catalog template) (hown : SparesOwn catalog template)
    (hnext : anyTriple (followsMember declaringWords.contains (plannedSymbols catalog template)) template.tokens = false)
    (ht : template.tokens = l.tokens) :
    SparesNext (plannedSymbols catalog template) (repairs catalog template l) := by
  refine sparesNext_useChanges (fun use r h hp => dependsOn_of_repair h hp) ?_
  intro before point name t after htokens hp hn hk hmem
  have hword : name.text ∉ declaringWords := by
    have hfalse := eq_false_of_anyTriple hnext (ht.trans htokens)
    simpa [followsMember, hp, hn, hk, hmem] using hfalse
  have hsome : useAt? (plannedSymbols catalog template) (name :: point :: before) t after ≠ none := fun hnone => by
    refine useAt?_eq_none_iff.1 hnone ⟨hk, hmem, ?_⟩
    simp [sideBefore, Side.after, hn, TokenKind.separates, hword, Side.admits]
  obtain ⟨use, hu⟩ := Option.ne_none_iff_exists'.1 hsome
  rw [hu]
  exact repair_ne_none hall hown (ht.trans (by rw [Layout.tokens, htokens]; simp)) hu

/-- Neither in the migrated template nor in the optimized one a planned symbol is used, if none stays in the source and
the locators are plain. -/
theorem findUses_eq_nil_of_replacing {document : Document} (hd : ModuleCatalog.ofDocument document = .ok catalog)
    (hplain : PlainLocators catalog) {source : String} (h : scan source = .ok template) {text : String}
    (ht : (transform catalog template (analyze catalog template)).text = text)
    (hw : ∀ word ∈ callWords, word ∉ plannedSymbols catalog template)
    (hspares : ∀ l : Layout, template.tokens = l.tokens →
      SparesNext (plannedSymbols catalog template) (repairs catalog template l))
    (hno : ¬ Occurs (KeptUse false (plannedSymbols catalog template) (repair catalog template)) [] template.tokens [])
    {migrated optimized : ScannedTemplate} (hmigrated : scan text = .ok migrated)
    (hoptimized : scan (optimize catalog (analyze catalog template).plan text).text = .ok optimized) :
    findUses (plannedSymbols catalog template) migrated.tokens = [] ∧
      findUses (plannedSymbols catalog template) optimized.tokens = [] := by
  have hc := isChecked_ofDocument hd
  obtain ⟨hwritable, hplan⟩ := writable_plan hd hplain h
  have hquote (e : PlanEntry) (he : e ∈ (analyze catalog template).plan) := quote_not_mem_module hc he
  obtain ⟨parts, block, l, cs, l', hm⟩ := exists_isMigration h hc fun e he => (hwritable e he).readable
  have hchars := hm.chars
  rw [ht] at hchars
  have hnone : ¬ HasUse false (plannedSymbols catalog template) .key l'.lexemes false := fun hu =>
    hno (hm.occurs_of_hasUse hc hplan (replacing_repair hc hm.migrates.source hm.migrates.tokens hw
      (hspares l hm.migrates.tokens) (.inr hno)) hu)
  have hmigratedUses := (findUses_eq_nil_iff hchars hmigrated).2 hnone
  obtain ⟨parts', block', k, cs', k', he, huses, huses'⟩ := exists_elision_uses hwritable hmigrated hoptimized
  exact ⟨hmigratedUses, (huses' _).2 fun hu =>
    (huses _).1 hmigratedUses (he.hasUse_of_optimized hmigrated hplan hquote hw hu)⟩

end Repaired

/-- The words that the language uses. -/
def languageWords : List String :=
  ["param", "var", "resource", "module", "output", "existing", "if", "for", "true", "false", "null"]

/-- If every reference to a planned resource is repaired, and no planned symbol is used in its own declaration, then no
planned symbol is used in the migrated template or in the optimized one, and all module calls are there. No planned
symbol may follow a member that is named like a word that declares something. -/
theorem repair_complete {document : Document} (hd : ModuleCatalog.ofDocument document = .ok catalog)
    (hplain : PlainLocators catalog) {source : String} (h : scan source = .ok template)
    (hwords : ∀ e ∈ (analyze catalog template).plan, e.symbol ∉ languageWords) (hall : RepairsAll catalog template)
    (hown : SparesOwn catalog template)
    (hnext : anyTriple (followsMember declaringWords.contains (plannedSymbols catalog template)) template.tokens = false)
    (name : String) :
    ∃ r, resolve catalog name source = .ok r ∧ r.transformation.plan = (analyze catalog template).plan ∧
      ∀ d ∈ (validate r.transformation.plan r.transformation.text).diagnostics ++
          (validate r.transformation.plan r.output).diagnostics,
        d.code ∉ [.danglingReference, .missingModuleBlock, .unbalancedBlock, .unscannableArtifact] := by
  refine ⟨resolveScanned catalog name template, by rw [resolve, h]; rfl, rfl, ?_⟩
  have hw : ∀ word ∈ callWords, word ∉ plannedSymbols catalog template := by
    intro word hword hmem
    obtain ⟨e, he, rfl⟩ := List.mem_map.1 hmem
    have hsub : callWords ⊆ languageWords := by decide
    exact hwords e he (hsub hword)
  obtain ⟨⟨migrated, hmigrated, hcalls⟩, optimized, hoptimized, hcalls'⟩ := exists_calls hd hplain h rfl
  obtain ⟨huse, huse'⟩ := findUses_eq_nil_of_replacing hd hplain h rfl hw
    (fun l ht => sparesNext_repairs hall hown hnext ht) (not_occurs_keptUse hall hown) hmigrated hoptimized
  intro d hmem
  have hcode : d.code = .residualDeclaration := (List.mem_append.1 hmem).elim
    (code_of_validate hmigrated hcalls huse d) (code_of_validate hoptimized hcalls' huse' d)
  rw [hcode]
  decide

/-- A resource that is used in a decorator, a condition, a string with a hole and the dependencies of another one, which
is used in an output. -/
def referringSource : String :=
  "resource sa 'T/a@2020-01-01' = \x7b\n\x7d\n@description(sa.id)\nresource kv 'T/a@2020-01-01' = if (sa.id == 'p') \x7b\n" ++
    "  kind: '$\x7bsa.id\x7d'\n  dependsOn: [\n    sa\n  ]\n\x7d\n" ++
    "output o string = kv.id\n"

theorem repair_complete_referring :
    ModuleCatalog.ofDocument accountDocument = .ok (catalogOf accountDocument) ∧
      PlainLocators (catalogOf accountDocument) ∧ scan referringSource = .ok (templateOf referringSource) ∧
      (∀ e ∈ (analyze (catalogOf accountDocument) (templateOf referringSource)).plan, e.symbol ∉ languageWords) ∧
      RepairsAll (catalogOf accountDocument) (templateOf referringSource) ∧
      SparesOwn (catalogOf accountDocument) (templateOf referringSource) ∧
      anyTriple (followsMember declaringWords.contains
        (plannedSymbols (catalogOf accountDocument) (templateOf referringSource)))
          (templateOf referringSource).tokens = false ∧
      (analyze (catalogOf accountDocument) (templateOf referringSource)).references.length = 5 ∧
      ∃ r, resolve (catalogOf accountDocument) "main" referringSource = .ok r ∧
        ∀ d ∈ (validate r.transformation.plan r.transformation.text).diagnostics ++
            (validate r.transformation.plan r.output).diagnostics,
          d.code ∉ [.danglingReference, .missingModuleBlock, .unbalancedBlock, .unscannableArtifact] := by
  have hd : ModuleCatalog.ofDocument accountDocument = .ok (catalogOf accountDocument) :=
    ofDocument_eq (by decide +kernel)
  have hplain : PlainLocators (catalogOf accountDocument) := plainLocators_ofDocument hd (by decide +kernel)
  have h : scan referringSource = .ok (templateOf referringSource) := scan_eq (by decide +kernel)
  obtain ⟨hwords, hall, hown, hnext, hlength⟩ :
      (∀ e ∈ (analyze (catalogOf accountDocument) (templateOf referringSource)).plan, e.symbol ∉ languageWords) ∧
        RepairsAll (catalogOf accountDocument) (templateOf referringSource) ∧
        SparesOwn (catalogOf accountDocument) (templateOf referringSource) ∧
        anyTriple (followsMember declaringWords.contains
          (plannedSymbols (catalogOf accountDocument) (templateOf referringSource)))
            (templateOf referringSource).tokens = false ∧
        (analyze (catalogOf accountDocument) (templateOf referringSource)).references.length = 5 := by
    decide +kernel
  obtain ⟨r, hr, -, hclean⟩ := repair_complete hd hplain h hwords hall hown hnext "main"
  exact ⟨hd, hplain, h, hwords, hall, hown, hnext, hlength, r, hr, hclean⟩

/-- A document with a mapping whose output for one member is another name. -/
def kindDocument : Document :=
  ⟨defaultSchemaVersion, [{ accountMapping with outputs := [("type", "kind"), ("id", "id")] }]⟩

/-- A template in which a planned symbol stands directly after a member that is named like a word that declares
something. -/
def hiddenSource : String :=
  "var q = sa.type kv\nresource sa 'T/a@2020-01-01' = \x7b\n\x7d\nresource kv 'T/a@2020-01-01' = \x7b\n\x7d\n"

/-- A planned symbol that is hidden after a member shows up when the member is repaired. -/
theorem repair_shows_hidden :
    ModuleCatalog.ofDocument kindDocument = .ok (catalogOf kindDocument) ∧ PlainLocators (catalogOf kindDocument) ∧
      scan hiddenSource = .ok (templateOf hiddenSource) ∧
      (∀ e ∈ (analyze (catalogOf kindDocument) (templateOf hiddenSource)).plan, e.symbol ∉ languageWords) ∧
      RepairsAll (catalogOf kindDocument) (templateOf hiddenSource) ∧
      SparesOwn (catalogOf kindDocument) (templateOf hiddenSource) ∧
      ∃ r, resolve (catalogOf kindDocument) "main" hiddenSource = .ok r ∧
        ∃ d ∈ (validate r.transformation.plan r.transformation.text).diagnostics, d.code = .danglingReference := by
  have hd : ModuleCatalog.ofDocument kindDocument = .ok (catalogOf kindDocument) := ofDocument_eq (by decide +kernel)
  have h : scan hiddenSource = .ok (templateOf hiddenSource) := scan_eq (by decide +kernel)
  obtain ⟨hwords, hall, hown⟩ :
      (∀ e ∈ (analyze (catalogOf kindDocument) (templateOf hiddenSource)).plan, e.symbol ∉ languageWords) ∧
        RepairsAll (catalogOf kindDocument) (templateOf hiddenSource) ∧
        SparesOwn (catalogOf kindDocument) (templateOf hiddenSource) := by decide +kernel
  refine ⟨hd, plainLocators_ofDocument hd (by decide +kernel), h, hwords, hall, hown, _, by rw [resolve, h]; rfl, ?_⟩
  change ∃ d ∈ (validate (analyze (catalogOf kindDocument) (templateOf hiddenSource)).plan
    (transform (catalogOf kindDocument) (templateOf hiddenSource)
      (analyze (catalogOf kindDocument) (templateOf hiddenSource))).text).diagnostics, d.code = .danglingReference
  rw [transform_of_emptyBodies (by decide +kernel), EditedText.ofEdits_of_pairwise (by decide +kernel)]
  decide +kernel

end BicepMigration.Migration
