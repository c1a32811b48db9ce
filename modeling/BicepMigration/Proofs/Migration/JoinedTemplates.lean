import BicepMigration.Proofs.Migration.JoinedPlan
import BicepMigration.Proofs.Migration.SettledOutput
import BicepMigration.Proofs.Migration.SoundSlices

/-!
# Templates are migrated one by one

A template that a plan does not concern can come after the template of the plan, before or after that is migrated. The
same module calls are written and the same references are repaired, and the same inputs are removed from the calls.
Main statement: resolving both templates together gives the artifacts of the first one, each with the second template
after it.
-/

namespace BicepMigration.Migration

open Catalog Template Text

variable {catalog : ModuleCatalog} {source : String} {template more joined : ScannedTemplate} {plan : List PlanEntry}

section Transform

/-- A module call is the same for a statement that says the same, where its fragments have the same text. -/
theorem render_moduleCall_congr {edited edited' : EditedText} {entry : PlanEntry} {mapping : Mapping} {s s' : Statement}
    {body : ObjectLiteral} (hs : s'.own = s.own) (hbody : s.body = some body)
    (hf : ∀ f, (f.span = none ∨ f ∈ s.fragments) → edited'.fragment f = edited.fragment f) :
    (moduleCall edited' entry mapping s' body).render edited' = (moduleCall edited entry mapping s body).render edited := by
  have hdecorators : s'.decorators = s.decorators := congrArg (·.decorators) hs
  have hcondition : s'.condition = s.condition := congrArg (·.condition) hs
  have hcall : moduleCall edited' entry mapping s' body = moduleCall edited entry mapping s body := by
    unfold moduleCall
    rw [hdecorators, hcondition]
    congr 1
    · refine List.map_congr_left fun f hmem => hf f (.inr ?_)
      exact List.mem_append_left _ (List.mem_append_left _ (List.mem_filter.1 hmem).1)
    · refine Option.map_congr fun f hmem => hf f (.inr ?_)
      exact List.mem_append_left _ (List.mem_append_right _ (Option.mem_toList.2 hmem))
  rw [hcall, ModuleCall.render, ModuleCall.render]
  refine congrArg _ (renderValue_congr 0 _ fun f hmem => hf f ((mem_fragments_moduleBody hmem).imp_right fun h => ?_))
  unfold Statement.fragments
  rw [hbody]
  exact List.mem_append_right _ h

/-- The same module calls are written before another template. -/
theorem callEdits_of_joins (h : scan source = .ok template) (hj : Joins template more joined) :
    callEdits catalog joined (analyze catalog template) = callEdits catalog template (analyze catalog template) := by
  have hsound := (@soundTransform catalog) h
  have hfragment {s : Statement} (hs : s ∈ template.statements) (f : Fragment) (hf : f.span = none ∨ f ∈ s.fragments) :
      (EditedText.ofEdits joined.source (referenceEdits catalog (analyze catalog template))).fragment f =
        (EditedText.ofEdits template.source (referenceEdits catalog (analyze catalog template))).fragment f := by
    rw [hj.source]
    refine EditedText.fragment_append (fun e he => hsound.edits e (List.mem_append_left _ he)) (fun span hspan => ?_) _
    rcases hf with hnone | hmem
    · cases hnone.symm.trans hspan
    · exact isSpan_of_mem_fragments (soundScan h) hs hmem span hspan
  unfold callEdits
  refine List.filterMap_congr fun entry he => ?_
  obtain ⟨s, body, mapping, -, hs, hjudged, -⟩ := (planned_analyze catalog template).exists_judged he
  obtain ⟨s', hs', hsame⟩ := hj.exists_statement hs
  have hbody' : s'.body = some body := (congrArg (·.body) hsame).trans hjudged.body
  have hspan : s'.span = s.span := congrArg (·.span) hsame
  rw [Nat.sub_zero] at hs hs'
  unfold replacementEdit?
  simp only [hs, hs', hbody', hjudged.body, hjudged.mapping, hspan, Option.bind_eq_bind, Option.bind_some]
  rw [render_moduleCall_congr hsame hjudged.body (hfragment (List.mem_of_getElem? hs))]

/-- Another template stays as it is after a migrated one. -/
theorem transform_of_joins (h : scan source = .ok template) (hj : Joins template more joined)
    (hu : Unconcerned catalog (analyze catalog template).plan more) :
    (transform catalog joined (analyze catalog joined)).text =
      (transform catalog template (analyze catalog template)).text ++ ("\n" ++ more.source) := by
  rw [analyze_of_joins h hj hu, transform_text, transform_text, callEdits_of_joins h hj, hj.source]
  exact EditedText.apply_append ((@soundTransform catalog) h).edits _

end Transform

section Optimize

/-- A module is found before a template that does not declare it. -/
theorem find?_of_joins (hj : Joins template more joined) {symbol : String}
    (hu : ∀ s ∈ more.statements, s.symbol ≠ some symbol) :
    (joined.find? .module symbol).map Statement.own = (template.find? .module symbol).map Statement.own := by
  obtain ⟨own, others, hstatements, hown, hothers⟩ := hj.statements
  have hnone : others.find? (fun s => s.kind = .module && s.symbol = some symbol) = none := by
    refine List.find?_eq_none.2 fun s hs => ?_
    obtain ⟨t, ht, hsame⟩ := List.mem_map.1 (hothers ▸ List.mem_map_of_mem hs)
    have hsymbol : t.symbol = s.symbol := congrArg (·.symbol) hsame
    simp [← hsymbol, hu t ht]
  have hmap (ss : List Statement) : (ss.find? (fun s => s.kind = .module && s.symbol = some symbol)).map Statement.own =
      (ss.map Statement.own).find? fun s => s.kind = .module && s.symbol = some symbol := by
    rw [List.find?_map]
    rfl
  unfold ScannedTemplate.find?
  rw [hstatements, List.find?_append, hnone, Option.or_none, hmap, hmap, hown]

/-- The edit that removes defaults from a module call, if there are any. -/
def elisionAt? (source : String) (entry : PlanEntry) (mapping : Mapping) (s : Statement) : Option Edit :=
  (paramsOf? s).bind fun (body, params) =>
    if (prune mapping.defaults entry.newSymbol "" params).removed.isEmpty then none
    else some ⟨s.span, (elidedCall entry mapping s body params).render (.unedited source)⟩

/-- A call is looked at if its mapping has defaults. -/
theorem elisionEdit?_eq (catalog : ModuleCatalog) (template : ScannedTemplate) (entry : PlanEntry) :
    elisionEdit? catalog template entry = (catalog.mapping? entry.mappingIndex).bind fun mapping =>
      if mapping.defaults.isEmpty then none
      else (template.find? .module entry.newSymbol).bind (elisionAt? template.source entry mapping) := by
  unfold elisionEdit? elide? elisionAt?
  cases catalog.mapping? entry.mappingIndex with
  | none => rfl
  | some mapping =>
    simp only [Option.bind_eq_bind, Option.bind_some]
    split
    · rfl
    · cases template.find? .module entry.newSymbol with
      | none => rfl
      | some s =>
        simp only [Option.bind_some]
        cases paramsOf? s <;> rfl

/-- Defaults are removed in the same way from a module call that says the same, where its fragments have the same text. -/
theorem elisionAt?_congr {source' : String} {entry : PlanEntry} {mapping : Mapping} {s s' : Statement}
    (hs : s'.own = s.own)
    (hf : ∀ f ∈ s.fragments, (EditedText.unedited source').fragment f = (EditedText.unedited source).fragment f) :
    elisionAt? source' entry mapping s' = elisionAt? source entry mapping s := by
  have hparams : paramsOf? s' = paramsOf? s := by
    unfold paramsOf?
    rw [show s'.body = s.body from congrArg (·.body) hs]
  unfold elisionAt?
  rw [hparams]
  cases hp : paramsOf? s with
  | none => rfl
  | some parts =>
    obtain ⟨body, params⟩ := parts
    obtain ⟨hbody, hget⟩ := paramsOf?_eq_some.1 hp
    have hcall : elidedCall entry mapping s' body params = elidedCall entry mapping s body params := by
      unfold elidedCall rewrittenCall
      rw [show s'.decorators = s.decorators from congrArg (·.decorators) hs,
        show s'.condition = s.condition from congrArg (·.condition) hs]
    have hrender : (elidedCall entry mapping s body params).render (.unedited source') =
        (elidedCall entry mapping s body params).render (.unedited source) := by
      refine congrArg _ (renderValue_congr 0 _ fun f hmem => hf f ?_)
      unfold Statement.fragments
      rw [hbody]
      exact List.mem_append_right _ (mem_fragments_elidedCall hget hmem)
    simp only [Option.bind_some]
    rw [hcall, hrender, show s'.span = s.span from congrArg (·.span) hs]

/-- The same module call is written without defaults before another template. -/
theorem elisionEdit?_of_joins (h : scan source = .ok template) (hj : Joins template more joined) {entry : PlanEntry}
    (hu : ∀ s ∈ more.statements, s.symbol ≠ some entry.newSymbol) :
    elisionEdit? catalog joined entry = elisionEdit? catalog template entry := by
  have hfind := find?_of_joins hj hu
  rw [elisionEdit?_eq, elisionEdit?_eq]
  refine congrArg _ (funext fun mapping => congrArg _ ?_)
  cases hs : template.find? .module entry.newSymbol with
  | none =>
    rw [hs, Option.map_none, Option.map_eq_none_iff] at hfind
    rw [hfind]
    rfl
  | some s =>
    rw [hs, Option.map_some, Option.map_eq_some_iff] at hfind
    obtain ⟨s', hs', hsame⟩ := hfind
    rw [hs', Option.bind_some, Option.bind_some]
    refine elisionAt?_congr hsame fun f hmem => ?_
    have hspan := isSpan_of_mem_fragments (soundScan h) (ScannedTemplate.mem_of_find? hs).1 hmem
    have hempty : ∀ e ∈ ([] : List Edit), IsSpan template.source e.span := by simp
    have hnil (text : String) : EditedText.ofEdits text [] = .unedited text := EditedText.ofEdits_of_pairwise .nil
    rw [hj.source, ← hnil, ← hnil]
    exact EditedText.fragment_append hempty hspan _

/-- Another template stays as it is after an optimized one. -/
theorem optimize_of_joins (h : scan source = .ok template) (hs : scan joined.source = .ok joined)
    (hj : Joins template more joined) (hu : ∀ e ∈ plan, ∀ s ∈ more.statements, s.symbol ≠ some e.newSymbol) :
    (optimize catalog plan joined.source).text = (optimize catalog plan source).text ++ ("\n" ++ more.source) := by
  have hedits : plan.filterMap (elisionEdit? catalog joined) = plan.filterMap (elisionEdit? catalog template) :=
    List.filterMap_congr fun e he => elisionEdit?_of_joins h hj (hu e he)
  obtain rfl := source_of_scan h
  rw [optimize_text hs, optimize_text h, hedits, hj.source]
  exact EditedText.apply_append ((@soundOptimize catalog) h plan).edits _

end Optimize

/-- A migrated template ends with decorators only if it did before. -/
theorem keyworded_of_isMigration (h : scan source = .ok template) (hc : IsChecked catalog)
    (hplain : ∀ e ∈ (analyze catalog template).plan, IsPlain e.module) (hk : Keyworded source template.tokens) :
    ∃ migrated, scan (transform catalog template (analyze catalog template)).text = .ok migrated ∧
      Keyworded (transform catalog template (analyze catalog template)).text migrated.tokens := by
  have hquote (e : PlanEntry) (he : e ∈ (analyze catalog template).plan) := quote_not_mem_module hc he
  obtain ⟨parts, block, l, cs, l', hm⟩ := exists_isMigration h hc fun e he =>
    isReadable_of_isPlain (hplain e he) (hquote e he)
  refine ⟨_, scan_of_layout hm.chars, ?_⟩
  rw [hm.migrates.tokens, ← source_of_scan h] at hk
  rw [Layout.tokens, hm.lexemes]
  refine hm.migrates.rewrites.keyworded (fun i new more hp => ?_) hm.renames hk
  obtain ⟨e, hmem, -, hb⟩ := hm.exists_block hp
  exact (hb.reads (hplain e hmem) (hquote e hmem)).1

/-- Resolving a template and another one that its plan does not concern gives the plan of the first one, and its
artifacts with the second one after them. -/
theorem resolve_append {document : Document} (hd : ModuleCatalog.ofDocument document = .ok catalog)
    (hplain : PlainLocators catalog) (name : String) {source later : String} (h : scan source = .ok template)
    (hlater : scan later = .ok more) (hmark : later.toList.head? ≠ some byteOrderMark)
    (hkeyword : (keywordTails source template.tokens).getLast? ≠ some [])
    (hu : Unconcerned catalog (analyze catalog template).plan more) :
    ∃ r r', resolve catalog name source = .ok r ∧ resolve catalog name (source ++ ("\n" ++ later)) = .ok r' ∧
      r'.transformation.plan = r.transformation.plan ∧ r'.transformation.rewrites = r.transformation.rewrites ∧
      r'.transformation.text = r.transformation.text ++ ("\n" ++ later) ∧ r'.output = r.output ++ ("\n" ++ later) := by
  have hk := keyworded_of_getLast hkeyword
  obtain ⟨-, hlocators⟩ := writable_plan hd hplain h
  obtain ⟨joined, hjoined, hj⟩ := exists_joins h hlater hmark hk
  obtain ⟨migrated, hmigrated, hkm⟩ := keyworded_of_isMigration h (isChecked_ofDocument hd) hlocators hk
  obtain ⟨joined', hjoined', hj'⟩ := exists_joins hmigrated hlater hmark hkm
  have hplan := analyze_of_joins h hj hu
  have htext := transform_of_joins h hj hu
  rw [source_of_scan hlater] at htext
  have hundeclared : ∀ e ∈ (analyze catalog template).plan, ∀ s ∈ more.statements, s.symbol ≠ some e.newSymbol :=
    fun e he s hs hsymbol => hu.undeclared s hs _ hsymbol e he ((planned_analyze catalog template).newSymbol_eq he)
  have hsource' := source_of_scan hjoined'
  have houtput := (@optimize_of_joins catalog) hmigrated (by rw [hsource']; exact hjoined') hj' hundeclared
  rw [hsource', source_of_scan hlater] at houtput
  refine ⟨resolveScanned catalog name template, resolveScanned catalog name joined, ?_, ?_, ?_, ?_, htext, ?_⟩
  · rw [resolve, h]
    rfl
  · rw [resolve, hjoined]
    rfl
  · exact congrArg Analysis.plan hplan
  · exact congrArg Analysis.rewrites hplan
  · change (optimize catalog (analyze catalog joined).plan (transform catalog joined (analyze catalog joined)).text).text =
      (optimize catalog (analyze catalog template).plan
        (transform catalog template (analyze catalog template)).text).text ++ ("\n" ++ later)
    rw [htext, hplan, houtput]

/-- A template with a resource of a mapped type, a reference to it, and a comment at the end of the last line. -/
def leadingSource : String :=
  "resource sa 'T/a@2020-01-01' = \x7b\n  kind: 'x'\n\x7d\noutput id string = sa.id // é"

/-- A template with a resource of another type, and the name of the first one in a string. -/
def laterSource : String :=
  "resource other 'T/b@2020-01-01' = \x7b\n  kind: 'x'\n\x7d\nvar saModules = 'sa $\x7bother.id\x7d'\n"

/-- A template with a parameter and an output comes after one with a resource, and is copied. -/
theorem resolve_append_sized :
    ModuleCatalog.ofDocument sizedDocument = .ok (catalogOf sizedDocument) ∧ PlainLocators (catalogOf sizedDocument) ∧
      scan leadingSource = .ok (templateOf leadingSource) ∧ scan laterSource = .ok (templateOf laterSource) ∧
      ((analyze (catalogOf sizedDocument) (templateOf leadingSource)).plan.map (·.symbol)) = ["sa"] ∧
      ∃ r r', resolve (catalogOf sizedDocument) "main" leadingSource = .ok r ∧
        resolve (catalogOf sizedDocument) "main" (leadingSource ++ ("\n" ++ laterSource)) = .ok r' ∧
        r'.transformation.plan = r.transformation.plan ∧
        r'.transformation.text = r.transformation.text ++ ("\n" ++ laterSource) ∧
        r'.output = r.output ++ ("\n" ++ laterSource) := by
  have h : scan leadingSource = .ok (templateOf leadingSource) := scan_eq (by decide +kernel)
  have hlater : scan laterSource = .ok (templateOf laterSource) := scan_eq (by decide +kernel)
  have hu : Unconcerned (catalogOf sizedDocument)
      (analyze (catalogOf sizedDocument) (templateOf leadingSource)).plan (templateOf laterSource) := by
    decide +kernel
  have hplan : (analyze (catalogOf sizedDocument) (templateOf leadingSource)).plan.map (·.symbol) = ["sa"] := by
    decide +kernel
  obtain ⟨r, r', hr, hr', hsame, -, htext, houtput⟩ :=
    resolve_append ofDocument_sized plainLocators_sized "main" h hlater (by decide +kernel) (by decide +kernel) hu
  exact ⟨ofDocument_sized, plainLocators_sized, h, hlater, hplan, r, r', hr, hr', hsame, htext, houtput⟩

end BicepMigration.Migration
