import BicepMigration.Proofs.Migration.Divided
import BicepMigration.Proofs.Migration.SettledOutput
import BicepMigration.Proofs.Template.Headings
import BicepMigration.Proofs.Template.KeyPaths

/-!
# Statement for statement

A migrated template has the statements of its source in the same order. One that is not planned keeps its heading, and a
planned one is the module call of its entry: the name of the deployment, the scope if the resource had one, the inputs,
and what the resource depends on if it said so. The inputs are the ones that are translated and then the properties that
stay. No planned symbol may be one of the words that a statement is read by.
-/

namespace BicepMigration.Migration

open Catalog Template

variable {catalog : ModuleCatalog} {template : ScannedTemplate} {plan : List PlanEntry} {s s' : Statement}

/-- The symbols of a plan are none of the words that a statement is read by. -/
def SparesReadWords (plan : List PlanEntry) : Prop := ∀ e ∈ plan, e.symbol ∉ readWords

instance : Decidable (SparesReadWords plan) :=
  inferInstanceAs (Decidable (∀ e ∈ plan, e.symbol ∉ readWords))

/-- The statements of a migrated template that are not planned keep their headings. -/
theorem exists_headings {source : String} (h : scan source = .ok template) (hc : IsChecked catalog)
    (hplain : ∀ e ∈ (analyze catalog template).plan, IsPlain e.module)
    (hwords : SparesReadWords (analyze catalog template).plan) {text : String}
    (ht : (transform catalog template (analyze catalog template)).text = text) :
    ∃ migrated, scan text = .ok migrated ∧
      List.Forall₂ (fun p s' => (∀ e ∈ (analyze catalog template).plan, e.statementIndex ≠ p.2) →
        s'.heading = p.1.heading) template.statements.zipIdx migrated.statements := by
  obtain ⟨parts, block, l, cs, l', hm⟩ := exists_isMigration h hc fun e he =>
    isReadable_of_isPlain (hplain e he) (quote_not_mem_module hc he)
  have hchars := hm.chars
  rw [ht] at hchars
  have hspares : SparesWords (Repairs (analyze catalog template).plan) := fun t u ⟨e, he, ht, _⟩ => by
    rw [ht]
    exact hwords e he
  have hspares' : SparesWords fun t u => Repairs (analyze catalog template).plan u t := fun t u ⟨e, he, _, hu⟩ => by
    rw [hu]
    exact newSymbol_not_mem_readWords (planned_analyze catalog template) he
  have hheadings := (@Rewrites.headings _ text) hspares hspares' hm.migrates.rewrites (fun i new more hp => by
      obtain ⟨e, he, -, hb⟩ := hm.exists_block hp
      exact (hb.reads (hplain e he) (quote_not_mem_module hc he)).1) (fun c hmem => ⟨hm.renames c hmem, relates_repairs l c hmem⟩) l'.start
  refine ⟨_, scan_of_layout hchars, ?_⟩
  rw [Layout.tokens, hm.lexemes]
  exact hheadings.imp fun p s' hp hnone => hp (planPicks_eq_none_iff.2 hnone)

section Calls

/-- The key, if the body has it. -/
def keyOf (body : ObjectLiteral) (key : String) : List String := if key ∈ body.map (·.key) then [key] else []

/-- A property that is hoisted keeps its key. -/
theorem keys_hoisted? {key : String} (hk : key ∈ hoistedKeys) (mapping : Mapping) (body : ObjectLiteral) :
    ((partition mapping body).hoisted? key).toList.map (·.key) = keyOf body key := by
  have hfind : (partition mapping body).hoisted? key = body.find? (·.key = key) := by
    rw [Partition.hoisted?, partition, List.find?_filter]
    congr 1
    funext p
    by_cases hp : p.key = key
    · simpa [hp] using hk
    · simp [hp]
  rw [hfind, keyOf]
  split
  · next hmem =>
    obtain ⟨p, hp, hkey⟩ := List.mem_map.1 hmem
    have hsome : (body.find? (·.key = key)).isSome := List.find?_isSome.2 ⟨p, hp, decide_eq_true hkey⟩
    obtain ⟨q, hq⟩ := Option.isSome_iff_exists.1 hsome
    have hqkey := List.find?_some hq
    rw [decide_eq_true_eq] at hqkey
    rw [hq, Option.toList_some, List.map_cons, hqkey, List.map_nil]
  · next hmem =>
    have hnone : body.find? (·.key = key) = none :=
      List.find?_eq_none.2 fun p hp hkey => hmem (List.mem_map.2 ⟨p, hp, by simpa using hkey⟩)
    rw [hnone, Option.toList_none, List.map_nil]

/-- A module body has its name and its inputs, and scope and dependencies where the resource has them. -/
theorem keys_moduleBody (newSymbol : String) (mapping : Mapping) (body : ObjectLiteral) :
    (moduleBody newSymbol (partition mapping body)).map (·.key) =
      "name" :: (keyOf body "scope" ++ "params" :: keyOf body "dependsOn") := by
  rw [← @keys_hoisted? "scope" (by decide) mapping, ← @keys_hoisted? "dependsOn" (by decide) mapping]
  simp [moduleBody, Property.plain]

/-- The inputs are those of the mapping, and then the properties without one. -/
theorem keys_moduleParams (parts : Partition) : (moduleParams parts).map (·.key) =
    parts.translated.map (·.input) ++ parts.residual.map (·.key) := by
  simp [moduleParams, Property.plain, Function.comp_def]

/-- A module call that is read from a migrated template, with its body and its inputs, and the resource that it stands
for with its body and its mapping. -/
structure ReadsParams (catalog : ModuleCatalog) (e : PlanEntry) (s s' : Statement) (mapping : Mapping)
    (old contents inputs : ObjectLiteral) : Prop where
  judged : Judged catalog s e.symbol e.resourceType e.apiVersion old e.mappingIndex mapping
  translated : e.translated = (partition mapping old).translated.map fun t => (t.path, t.input)
  body : s'.body = some contents
  keys : contents.map (·.key) = (moduleBody e.newSymbol (partition mapping old)).map (·.key)
  params : ObjectLiteral.get? contents "params" = some (.object inputs)
  names : inputs.map (·.key) = (moduleParams (partition mapping old)).map (·.key)
  nested : ∀ keys, HasKeys (moduleParams (partition mapping old)) keys → HasKeys inputs keys

/-- A statement that says a module call has a body with inputs. -/
theorem SaysCall.exists_readsParams {text : String} {e : PlanEntry} (h : SaysCall catalog template text e s s') :
    ∃ mapping body body' params, ReadsParams catalog e s s' mapping body body' params := by
  obtain ⟨parts, body, mapping, t, hj, -, htranslated, hshow, hcall, hsense⟩ := h
  obtain ⟨entries, hentries, hall⟩ := hcall.body
  have hshown := hshow.body
  obtain ⟨w, hw, here, gap, hplaced, hvalue⟩ := exists_get?_of_entriesReadFrom hall
    (get?_moduleBody e.newSymbol (partition mapping body))
  have hparams : parts.leaves.Show (repairedText catalog template)
      (.object (moduleParams (partition mapping body))) := by
    cases hshown with
    | object _ hv => exact hv (.plain "params" (.object (moduleParams (partition mapping body)))) (by simp [moduleCall, moduleBody])
  obtain ⟨inputs, hinputs, hall'⟩ := exists_object hparams hplaced
  rw [hinputs] at hvalue
  have hbody : s'.body.map ObjectLiteral.unplaced = some entries.unplaced := by
    rw [show s'.body.map ObjectLiteral.unplaced = t.body.map ObjectLiteral.unplaced from congrArg (·.body) hsense,
      hentries, Option.map_some]
  rw [← hvalue] at hw
  obtain ⟨body', params, hp, hbody', hparams'⟩ := exists_params hbody hw
  obtain ⟨hsome, hget⟩ := paramsOf?_eq_some.1 hp
  refine ⟨mapping, body, body', params, hj, htranslated, hsome, ?_, hget, ?_, fun keys hkeys => ?_⟩
  · rw [← keys_unplaced, hbody', keys_unplaced, keys_of_entriesReadFrom hall, moduleCall]
  · rw [← keys_unplaced, hparams', keys_unplaced, keys_of_entriesReadFrom hall']
  · exact hasKeys_of_unplaced (hkeys.readBack hparams hall') hparams'

/-- The module call that stands for a resource: its heading, its condition and the keys of its body and its inputs. -/
structure CallsModule (catalog : ModuleCatalog) (e : PlanEntry) (s s' : Statement) : Prop where
  kind : s'.kind = .module
  symbol : s'.symbol = some e.newSymbol
  target : s'.target = some e.module
  condition : s'.condition.isSome = s.condition.isSome
  body : ∃ mapping body body' params, catalog.mapping? e.mappingIndex = some mapping ∧ s.body = some body ∧
    s'.body = some body' ∧
    body'.map (·.key) = "name" :: (keyOf body "scope" ++ "params" :: keyOf body "dependsOn") ∧
    ObjectLiteral.get? body' "params" = some (.object params) ∧
    params.map (·.key) = e.translated.map (·.2) ++ (partition mapping body).residual.map (·.key)

/-- A statement that says a module call calls the module of the plan entry. -/
theorem SaysCall.callsModule {text : String} {e : PlanEntry} (h : SaysCall catalog template text e s s') :
    CallsModule catalog e s s' := by
  obtain ⟨mapping, body, body', params, hr⟩ := h.exists_readsParams
  obtain ⟨parts, _, mapping', t, -, hmodule, -, -, hcall, hsense⟩ := h
  have hsymbol : s'.symbol = some e.newSymbol := (congrArg (·.symbol) hsense).trans hcall.symbol
  refine ⟨(congrArg (·.kind) hsense).trans hcall.kind, hsymbol, ?_, ?_, mapping, body, body', params, hr.judged.mapping,
    hr.judged.body, hr.body, ?_, hr.params, ?_⟩
  · have htarget : (s'.symbol.bind fun _ => s'.target) = t.symbol.bind fun _ => t.target := congrArg (·.target) hsense
    rw [hsymbol, hcall.symbol, Option.bind_some, Option.bind_some, hcall.target] at htarget
    rw [htarget, hmodule]
    rfl
  · have hcondition : (s'.condition.map Fragment.unplaced).isSome = (t.condition.map Fragment.unplaced).isSome :=
      congrArg (·.condition.isSome) hsense
    have hraw := congrArg Option.isSome hcall.condition
    rw [Option.isSome_map, Option.isSome_map] at hcondition
    rw [Option.isSome_map] at hraw
    rw [hcondition, hraw, moduleCall]
    exact Option.isSome_map ..
  · rw [hr.keys, keys_moduleBody]
  · rw [hr.names, keys_moduleParams, hr.translated, List.map_map]
    rfl

end Calls

/-- Only one entry stands for a statement. -/
theorem eq_of_statementIndex (h : plan.Pairwise fun a b => a.statementIndex < b.statementIndex) {a b : PlanEntry}
    (ha : a ∈ plan) (hb : b ∈ plan) (hi : a.statementIndex = b.statementIndex) : a = b := by
  induction plan with
  | nil => cases ha
  | cons e rest ih =>
    obtain ⟨hfirst, hrest⟩ := List.pairwise_cons.1 h
    rcases List.mem_cons.1 ha with rfl | ha' <;> rcases List.mem_cons.1 hb with rfl | hb'
    · rfl
    · exact absurd hi (Nat.ne_of_lt (hfirst b hb'))
    · exact absurd hi.symm (Nat.ne_of_lt (hfirst a ha'))
    · exact ih hrest ha' hb'

section Found

/-- A statement with repaired references declares what it declared, if it declares something. -/
theorem SaysRepaired.symbol_eq {source text : String} (h : SaysRepaired plan source text s s')
    (hplan : ∀ e ∈ plan, e.newSymbol ∉ readWords) (hk : s'.kind ≠ .other) : s'.kind = s.kind ∧ s'.symbol = s.symbol := by
  obtain ⟨run, hrenames, hrelates, hspares, ⟨here, first, others, -, htoks, hsense⟩,
    ⟨here', first', others', -, htoks', hsense'⟩⟩ := h
  have hrenamed := renamed_news hrenames hrelates hspares here here'
  rw [htoks, htoks'] at hrenamed
  have hafter : Renamed (Repairs plan) false (readDecorators source (first :: others)).2
      (readDecorators text (first' :: others')).2 := hrenamed.afterDecorators
  have hkind : s.kind = kindAt (readDecorators source (first :: others)).2 := congrArg (·.kind) hsense
  have hkind' : s'.kind = kindAt (readDecorators text (first' :: others')).2 := congrArg (·.kind) hsense'
  have hsymbol : s.symbol = (readStatementBody source (readDecorators source (first :: others)).2).1.symbol :=
    congrArg (·.symbol) hsense
  have hsymbol' : s'.symbol = (readStatementBody text (readDecorators text (first' :: others')).2).1.symbol :=
    congrArg (·.symbol) hsense'
  rw [hkind'] at hk
  -- the words of the new statement are no symbols of modules, so they stood in the old one
  have hwords : SparesWords fun t u => Repairs plan u t := fun t u ⟨e, he, _, hu⟩ => by
    rw [hu]
    exact hplan e he
  have hsame := hafter.symm.kindAt hwords hk
  rw [hkind, hkind', hsymbol, hsymbol', symbol_readStatementBody, symbol_readStatementBody, hsame,
    hafter.symm.nameAt_eq hwords hk]
  exact ⟨rfl, rfl⟩

/-- What becomes of the statement in a place stands in that place. -/
theorem exists_of_getElem? {r : Nat → Statement → Statement → Prop} {ss ss' : List Statement}
    (h : List.Forall₂ (fun p s' => r p.2 p.1 s') ss.zipIdx ss') {i : Nat} {s : Statement} (hs : ss[i]? = some s) :
    ∃ s', ss'[i]? = some s' ∧ r i s s' := by
  have hlength := h.length_eq
  rw [List.length_zipIdx] at hlength
  obtain ⟨hi, rfl⟩ := List.getElem?_eq_some_iff.1 hs
  have hr := h.get (by rwa [List.length_zipIdx]) (hlength ▸ hi)
  rw [List.get_eq_getElem, List.getElem_zipIdx, Nat.zero_add] at hr
  exact ⟨_, List.getElem?_eq_getElem _, hr⟩

/-- The module call of an entry is the first module with its symbol. -/
theorem exists_call {text : String} {migrated : ScannedTemplate}
    (hall : List.Forall₂ (fun p s' => Migrated catalog template text p.2 p.1 s') template.statements.zipIdx
      migrated.statements) {e : PlanEntry} (he : e ∈ (analyze catalog template).plan) :
    ∃ s s', template.statements[e.statementIndex]? = some s ∧ migrated.find? .module e.newSymbol = some s' ∧
      SaysCall catalog template text e s s' := by
  have hplanned := planned_analyze catalog template
  obtain ⟨hfresh, hplan⟩ := hplanned.newSymbol_not_mem
  have hmigrated (i : Nat) (s s' : Statement) (h : Migrated catalog template text i s s')
      (hs : template.statements[i]? = some s) (hk : s'.kind = .module) (hsymbol : s'.symbol = some e.newSymbol) :
      i = e.statementIndex ∧ SaysCall catalog template text e s s' := by
    rcases h with ⟨-, hsaid⟩ | ⟨e', he', rfl, hsaid⟩
    · have hold := (hsaid.symbol_eq (fun e he => newSymbol_not_mem_readWords hplanned he) (by simp [hk])).2
      exact absurd (List.mem_filterMap.2 ⟨s, List.mem_of_getElem? hs, hold.symm.trans hsymbol⟩) (hfresh e he)
    · have hnew := hsaid.callsModule.symbol.symm.trans hsymbol
      obtain rfl := eq_of_newSymbol hplan he' he (Option.some.inj hnew)
      exact ⟨rfl, hsaid⟩
  obtain ⟨s, -, -, -, hs, -⟩ := hplanned.exists_judged he
  rw [Nat.sub_zero] at hs
  obtain ⟨s', hs', hm⟩ := exists_of_getElem? hall hs
  obtain ⟨t, ht⟩ : ∃ t, migrated.find? .module e.newSymbol = some t := by
    refine Option.isSome_iff_exists.1 (List.find?_isSome.2 ⟨s', List.mem_of_getElem? hs', ?_⟩)
    rcases hm with ⟨hnone, -⟩ | ⟨e', he', hi, hsaid⟩
    · exact absurd rfl (hnone e he)
    · obtain rfl := eq_of_statementIndex hplanned.pairwise he' he hi
      simp [hsaid.callsModule.kind, hsaid.callsModule.symbol]
  obtain ⟨hmem, hk, hsymbol⟩ := ScannedTemplate.mem_of_find? ht
  obtain ⟨i, s, hs, hm⟩ := exists_origin hall hmem
  obtain ⟨rfl, hsaid⟩ := hmigrated i s t hm hs hk hsymbol
  exact ⟨s, t, hs, ht, hsaid⟩

end Found

/-- A resource with a condition, a scope and dependencies between two other statements, one of them a keyword alone on
its line before a literal. -/
def guardedSource : String :=
  "param p bool\nresource sa 'T/a@2020-01-01' = if (p) \x7b\n  scope: q\n  kind: 'x'\n  dependsOn: [\n    q\n  ]\n\x7d\n" ++
    "resource\n'lit'\noutput o string = sa.id\n"

/-- A migrated template has the statements of its source, one by one. A statement that is not planned keeps its heading,
and a planned one is the module call of its entry. -/
theorem transform_corresponds {document : Document} (hd : ModuleCatalog.ofDocument document = .ok catalog)
    (hplain : PlainLocators catalog) {source : String} (h : scan source = .ok template)
    (hwords : SparesReadWords (analyze catalog template).plan) :
    ∃ migrated, scan (transform catalog template (analyze catalog template)).text = .ok migrated ∧
      migrated.statements.length = template.statements.length ∧
      ∀ i s s', template.statements[i]? = some s → migrated.statements[i]? = some s' →
        ((∀ e ∈ (analyze catalog template).plan, e.statementIndex ≠ i) → s'.heading = s.heading) ∧
          ∀ e ∈ (analyze catalog template).plan, e.statementIndex = i → CallsModule catalog e s s' := by
  have hc := isChecked_ofDocument hd
  obtain ⟨-, hlocators⟩ := writable_plan hd hplain h
  obtain ⟨migrated, hm, hheadings⟩ := exists_headings h hc hlocators hwords rfl
  obtain ⟨migrated', hm', hmigrated⟩ := exists_migrated h hc hlocators rfl
  obtain rfl : migrated = migrated' := Except.ok.inj (hm.symm.trans hm')
  have hlength := hheadings.length_eq
  rw [List.length_zipIdx] at hlength
  refine ⟨migrated, hm, hlength.symm, fun i s s' hs hs' => ?_⟩
  obtain ⟨t, ht, hheading⟩ := exists_of_getElem? (r := fun i s s' =>
    (∀ e ∈ (analyze catalog template).plan, e.statementIndex ≠ i) → s'.heading = s.heading) hheadings hs
  obtain ⟨t', ht', hmigrated⟩ := exists_of_getElem? hmigrated hs
  obtain rfl := Option.some.inj (hs'.symm.trans ht)
  obtain rfl := Option.some.inj (hs'.symm.trans ht')
  refine ⟨hheading, fun e he hi => ?_⟩
  rcases hmigrated with ⟨hnone, -⟩ | ⟨e', he', hi', hsaid⟩
  · exact absurd hi (hnone e he)
  · obtain rfl := eq_of_statementIndex (planned_analyze catalog template).pairwise he he' (hi.trans hi'.symm)
    exact hsaid.callsModule

theorem transform_corresponds_guarded :
    ModuleCatalog.ofDocument accountDocument = .ok (catalogOf accountDocument) ∧
      PlainLocators (catalogOf accountDocument) ∧ scan guardedSource = .ok (templateOf guardedSource) ∧
      SparesReadWords (analyze (catalogOf accountDocument) (templateOf guardedSource)).plan ∧
      ∃ e ∈ (analyze (catalogOf accountDocument) (templateOf guardedSource)).plan, ∃ migrated s s',
        scan (transform (catalogOf accountDocument) (templateOf guardedSource)
          (analyze (catalogOf accountDocument) (templateOf guardedSource))).text = .ok migrated ∧
        migrated.statements.length = 5 ∧ (templateOf guardedSource).statements[1]? = some s ∧
        migrated.statements[1]? = some s' ∧ CallsModule (catalogOf accountDocument) e s s' := by
  have hd : ModuleCatalog.ofDocument accountDocument = .ok (catalogOf accountDocument) :=
    ofDocument_eq (by decide +kernel)
  have hplain : PlainLocators (catalogOf accountDocument) := plainLocators_ofDocument hd (by decide +kernel)
  have h : scan guardedSource = .ok (templateOf guardedSource) := scan_eq (by decide +kernel)
  have hwords : SparesReadWords (analyze (catalogOf accountDocument) (templateOf guardedSource)).plan := by
    decide +kernel
  have hplan : (analyze (catalogOf accountDocument) (templateOf guardedSource)).plan.map (·.statementIndex) = [1] := by
    decide +kernel
  have hfive : (templateOf guardedSource).statements.length = 5 := by decide +kernel
  obtain ⟨e, he, hindex⟩ := List.mem_map.1 (hplan ▸ List.mem_singleton_self 1)
  obtain ⟨migrated, hm, hlength, hall⟩ := transform_corresponds hd hplain h hwords
  rw [hfive] at hlength
  have hs := List.getElem?_eq_getElem (l := (templateOf guardedSource).statements) (i := 1) (by omega)
  have hs' := List.getElem?_eq_getElem (l := migrated.statements) (i := 1) (by omega)
  exact ⟨hd, hplain, h, hwords, e, he, migrated, _, _, hm, hlength, hs, hs', (hall 1 _ _ hs hs').2 e he hindex⟩

end BicepMigration.Migration
