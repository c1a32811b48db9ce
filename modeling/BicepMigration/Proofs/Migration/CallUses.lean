import BicepMigration.Proofs.Migration.BodyUses
import BicepMigration.Proofs.Migration.ElidedText
import BicepMigration.Proofs.Migration.MigratedStatements
import BicepMigration.Proofs.Template.RewrittenUse

/-!
# What is used in module calls

A module call uses what its resource uses, apart from the decorators that it does not take over and from properties that
it takes once only. When defaults are removed it goes on using what it used. So the uses in a migrated template, and in
an optimized one, are those that stay in the template before.
-/

namespace BicepMigration.Migration

open Catalog Template Text

variable {strict : Bool} {symbols : List String}

section Calls

variable {edited : EditedText} {s : Statement} {body : ObjectLiteral}

/-- The name of a deployment uses nothing. -/
theorem not_leafUses_quote (text : String) (side : Side) :
    ¬ LeafUses strict symbols edited side (.string ⟨quote text, none⟩) := by
  obtain ⟨helement, htext⟩ := isLeaf_quote text
  exact not_textUses_of_kind helement.toPart htext (kind_quoteLexemes _)

/-- A module call uses what its resource uses. -/
theorem statementUses_of_moduleCall {entry : PlanEntry} {mapping : Mapping} (hbody : s.body = some body)
    (h : CallUses strict symbols edited (moduleCall edited entry mapping s body)) :
    StatementUses strict symbols edited s := by
  rcases h with ⟨d, hd, hu⟩ | ⟨c, hc, hu⟩ | hu
  · obtain ⟨f, hf, rfl⟩ := List.mem_map.1 hd
    exact .inl ⟨f, (List.mem_filter.1 hf).1, hu⟩
  · obtain ⟨f, hf, rfl⟩ := Option.map_eq_some_iff.1 hc
    exact .inr (.inl ⟨f, hf, hu⟩)
  · refine .inr (.inr ⟨body, hbody, any_object_iff.2 ?_⟩)
    exact (anyEntry_of_moduleBody (any_object_iff.1 hu)).resolve_left (not_leafUses_quote _ _)

/-- What a resource uses is used in its module call, if nothing is used in decorators that are not taken over, and no
property that belongs to the module call is repeated. -/
theorem callUses_moduleCall {mapping : Mapping} (entry : PlanEntry) (hbody : s.body = some body)
    (hcarried : ∀ f ∈ s.decorators, isCarried f = false → ¬ TextUses strict symbols .key (edited.fragment f))
    (hn : ((hoistedOf body).map (·.key)).Nodup) (h : StatementUses strict symbols edited s) :
    CallUses strict symbols edited (moduleCall edited entry mapping s body) := by
  rcases h with ⟨f, hf, hu⟩ | ⟨f, hf, hu⟩ | ⟨body', hbody', hu⟩
  · have hk : isCarried f = true := by
      by_contra hk
      exact hcarried f hf (by simpa using hk) hu
    exact .inl ⟨_, List.mem_map_of_mem (List.mem_filter.2 ⟨hf, hk⟩), hu⟩
  · exact .inr (.inl ⟨_, Option.map_eq_some_iff.2 ⟨f, hf, rfl⟩, hu⟩)
  · obtain rfl := Option.some.inj (hbody.symm.trans hbody')
    exact .inr (.inr (any_object_iff.2 (anyEntry_moduleBody _ hn (any_object_iff.1 hu))))

variable {template : ScannedTemplate} {l : Layout} {entry : PlanEntry} {mapping : Mapping} {params : ObjectLiteral}

/-- Without defaults a module call uses what it used. -/
theorem statementUses_of_elidedCall (hholds : StatementHolds template.source template.tokens s)
    (hbody : s.body = some body) (hparams : ObjectLiteral.get? body "params" = some (.object params))
    (h : CallUses strict symbols (.unedited template.source) (elidedCall entry mapping s body params)) :
    StatementUses strict symbols (.unedited template.source) s := by
  rcases h with ⟨d, hd, hu⟩ | ⟨c, hc, hu⟩ | hu
  · obtain ⟨f, hf, rfl⟩ := List.mem_map.1 hd
    rw [← fragment_unedited (hholds.decorators f hf)] at hu
    exact .inl ⟨f, hf, hu⟩
  · obtain ⟨f, hf, rfl⟩ := Option.map_eq_some_iff.1 hc
    rw [← fragment_unedited (hholds.condition f hf)] at hu
    exact .inr (.inl ⟨f, hf, hu⟩)
  · refine .inr (.inr ⟨body, hbody, any_object_iff.2 ?_⟩)
    refine (anyEntry_of_replaceFirst (any_object_iff.1 hu)).elim (fun hu => ?_) id
    have hkept := (prunes_prune entry.newSymbol "" params).anyEntry_of_kept (any_object_iff.1 hu)
    obtain ⟨p, hp, hvalue⟩ := Option.map_eq_some_iff.1 hparams
    refine ⟨p, List.mem_of_find?_eq_some hp, ?_⟩
    rw [hvalue]
    exact any_object_iff.2 hkept

/-- What a module call used is used without defaults, if no symbol is a word of literals. -/
theorem callUses_elidedCall (hs : template.source.toList = l.chars) (ht : template.tokens = l.tokens)
    (hw : ∀ word ∈ callWords, word ∉ symbols) (hholds : StatementHolds template.source template.tokens s)
    (hbody : s.body = some body) (hparams : ObjectLiteral.get? body "params" = some (.object params))
    (h : StatementUses strict symbols (.unedited template.source) s) :
    CallUses strict symbols (.unedited template.source) (elidedCall entry mapping s body params) := by
  rcases h with ⟨f, hf, hu⟩ | ⟨f, hf, hu⟩ | ⟨body', hbody', hu⟩
  · rw [fragment_unedited (hholds.decorators f hf)] at hu
    exact .inl ⟨_, List.mem_map_of_mem hf, hu⟩
  · rw [fragment_unedited (hholds.condition f hf)] at hu
    exact .inr (.inl ⟨_, Option.map_eq_some_iff.2 ⟨f, hf, rfl⟩, hu⟩)
  · obtain rfl := Option.some.inj (hbody.symm.trans hbody')
    have hevery : (Value.object body).Every fun w => w.isLiteral = true →
        ∀ side, ¬ LeafUses strict symbols (.unedited template.source) side w := by
      refine (hholds.body body hbody).imp fun w hscalar hread hl side => ?_
      rw [ht] at hread
      exact not_leafUses_of_isLiteral hs hw hread hscalar hl side
    obtain ⟨p, hp, hvalue⟩ := Option.map_eq_some_iff.1 hparams
    have hpevery := (every_object_iff.1 hevery p (List.mem_of_find?_eq_some hp)).2
    rw [hvalue] at hpevery
    refine .inr (.inr (any_object_iff.2 (anyEntry_replaceFirst hparams (fun hu => ?_) (any_object_iff.1 hu))))
    exact any_object_iff.2 ((prunes_prune entry.newSymbol "" params).anyEntry_kept
      (fun q hq => (every_object_iff.1 hpevery q hq).2) (any_object_iff.1 hu))

end Calls

variable {catalog : ModuleCatalog} {template : ScannedTemplate} {plan : List PlanEntry} {l l' : Layout}
  {cs : List Change} {parts : PlanEntry → CallLexemes} {block : PlanEntry → Lexeme × List Lexeme}

section Migrated

/-- What repairs the uses of planned symbols. -/
abbrev repair (catalog : ModuleCatalog) (template : ScannedTemplate) : Replacements :=
  repairLexemes? catalog template.statements (analyze catalog template)

/-- The symbols of a plan. -/
abbrev plannedSymbols (catalog : ModuleCatalog) (template : ScannedTemplate) : List String :=
  (analyze catalog template).plan.map (·.symbol)

/-- The symbol of a module is none of the planned symbols. -/
theorem newSymbol_not_mem_planned {e : PlanEntry} (he : e ∈ (analyze catalog template).plan) :
    e.newSymbol ∉ plannedSymbols catalog template := by
  intro hmem
  obtain ⟨a, ha, hsame⟩ := List.mem_map.1 hmem
  obtain ⟨s, _, _, -, hs, hj, -⟩ := (planned_analyze catalog template).exists_judged ha
  refine (planned_analyze catalog template).newSymbol_not_mem.1 e he (List.mem_filterMap.2 ⟨s, List.mem_of_getElem? hs, ?_⟩)
  rw [hj.symbol, ← hsame]

/-- Repairs write names that are no planned symbols. -/
theorem frees_repair : Frees (plannedSymbols catalog template) (repair catalog template) := by
  intro use new more h
  obtain ⟨e, mapping, names, he, -, -, -, rfl, rfl⟩ := repairLexemes?_cases h
  refine ⟨rfl, ?_, isMembers_memberLexemes names⟩
  rw [nameLexeme, String.ofList_toList]
  exact newSymbol_not_mem_planned he

/-- Where references are repaired uses can be told apart, if no planned symbol stays directly after a repaired reference
or between an opening bracket and a colon. -/
theorem replacing_repair (hc : IsChecked catalog) (hs : template.source.toList = l.chars)
    (ht : template.tokens = l.tokens) (hw : ∀ word ∈ callWords, word ∉ plannedSymbols catalog template)
    (hspares : SparesNext (plannedSymbols catalog template) (repairs catalog template l))
    (ho : strict = true ∨
      ¬ Occurs (KeptUse strict (plannedSymbols catalog template) (repair catalog template)) [] template.tokens []) :
    Replacing strict template.source l (plannedSymbols catalog template) (repair catalog template) where
  source := hs
  frees := frees_repair
  renames := renames_useChanges hc l.legible.forall_spelled
  spares := hspares
  words := hw
  opened _ _ _ := startsColon_of_opened (ht ▸ ho)

/-- All uses in a migrated template stay from its source, if the locators of the plan are plain. -/
theorem IsMigration.occurs_of_hasUse (hm : IsMigration catalog template parts block l cs l') (hc : IsChecked catalog)
    (hplain : ∀ e ∈ (analyze catalog template).plan, IsPlain e.module)
    (h : Replacing strict template.source l (plannedSymbols catalog template) (repair catalog template))
    (hu : HasUse strict (plannedSymbols catalog template) .key l'.lexemes false) :
    Occurs (KeptUse strict (plannedSymbols catalog template) (repair catalog template)) [] template.tokens [] := by
  rw [hm.lexemes] at hu
  rw [hm.migrates.tokens]
  refine h.occurs_of_hasUse hm.migrates.rewrites (fun i s new more hs hp hu => ?_) hu
  obtain ⟨e, he, rfl, t, body, mapping, ht, hj, hmodule, -, hshow, hall, -⟩ := hm.exists_block hp
  obtain rfl := Option.some.inj (ht.symm.trans hs)
  rw [← hall] at hu
  have hlocator := hplain e he
  have hquote := quote_not_mem_module hc he
  rw [hmodule] at hlocator hquote
  have hcall := hshow.callUses_of_hasUse hlocator hquote h.words _ hu
  rw [repairedText, referenceEdits_eq hm.migrates.tokens] at hcall
  exact statementUses_of_moduleCall hj.body hcall

/-- All uses that stay in the source are uses in the migrated template, if decorators that are not taken over use
nothing, and no property that belongs to a module call is repeated. -/
theorem IsMigration.hasUse_of_occurs (hm : IsMigration catalog template parts block l cs l')
    (h : Replacing strict template.source l (plannedSymbols catalog template) (repair catalog template))
    (hcarried : ∀ e ∈ (analyze catalog template).plan, ∀ s, template.statements[e.statementIndex]? = some s →
      ∀ f ∈ s.decorators, isCarried f = false → ¬ TextUses strict (plannedSymbols catalog template) .key
        ((replacedText template.source l (plannedSymbols catalog template) (repair catalog template)).fragment f))
    (hn : ∀ e ∈ (analyze catalog template).plan, ∀ s body, template.statements[e.statementIndex]? = some s →
      s.body = some body → ((hoistedOf body).map (·.key)).Nodup)
    (ho : Occurs (KeptUse strict (plannedSymbols catalog template) (repair catalog template)) [] template.tokens []) :
    HasUse strict (plannedSymbols catalog template) .key l'.lexemes false := by
  rw [hm.lexemes]
  rw [hm.migrates.tokens] at ho
  refine h.hasUse_of_occurs hm.migrates.rewrites (fun i s new more hs hp hu => ?_) ho
  obtain ⟨e, he, rfl, t, body, mapping, ht, hj, -, -, hshow, hall, -⟩ := hm.exists_block hp
  obtain rfl := Option.some.inj (ht.symm.trans hs)
  rw [← hall]
  rw [repairedText, referenceEdits_eq hm.migrates.tokens] at hshow ⊢
  refine hshow.hasUse_of_callUses (h.words _ (by decide)) _ ?_
  exact callUses_moduleCall e hj.body (hcarried e he t ht) (hn e he t body ht hj.body) hu

end Migrated

section Optimized

/-- Without replacements everything is kept. -/
theorem useChanges_none (symbols : List String) (before : List Token) (here : Cursor) (ls : List Lexeme) :
    useChanges symbols (fun _ => none) before here ls = kept ls := by
  induction ls generalizing before here with
  | nil =>
    rw [useChanges]
    rfl
  | cons l ls ih =>
    rw [useChanges_keep (by simp), ih]
    rfl

/-- Without replacements it does not matter what the symbols are. -/
theorem rewrites_of_none {source : String} {names : List String} {pick : Picks} {index : Nat} {before : List Token}
    {here : Cursor} {ls : List Lexeme} {ss : List Statement}
    (h : Rewrites source names (fun _ => none) pick index before here ls ss cs) (symbols : List String) :
    Rewrites source symbols (fun _ => none) pick index before here ls ss cs := by
  induction h with
  | done hls => exact .done hls
  | piece hblank hpiece hbody hrun huse _ ih =>
    rw [useChanges_none, useChanges_none] at huse
    exact .piece hblank hpiece hbody hrun (by rw [useChanges_none, useChanges_none]; exact huse) ih

/-- Without replacements a text is written as it stands. -/
theorem replacedText_none (source : String) (l : Layout) (symbols : List String) :
    replacedText source l symbols (fun _ => none) = .unedited source := by
  rw [replacedText, useChanges_none, editsFrom_kept, EditedText.ofEdits, List.mergeSort_nil, EditedText.unedited]

/-- The symbols that are used among the lexemes of a text are those that are used among its tokens. -/
theorem hasUse_lexemes_iff (l : Layout) : HasUse strict symbols .key l.lexemes false ↔
    Occurs (KeptUse strict symbols fun _ => none) [] l.tokens [] := by
  have hspares : SparesNext symbols (kept l.lexemes) := fun first others new more m hs => by
    have hmem := hs.subset (List.mem_cons_self ..)
    simp [kept] at hmem
  have huse : useChanges symbols (fun _ => none) [] l.start (olds (kept l.lexemes) ++ []) = kept l.lexemes ++ [] := by
    rw [useChanges_none, olds_kept, List.append_nil, List.append_nil]
  have hnews := (@hasUse_news_iff strict symbols) (by simp [Frees]) huse hspares (agrees_self _ _)
  rwa [news_kept, olds_kept] at hnews

/-- Without replacements uses can be told apart, if none stands between an opening bracket and a colon. -/
theorem replacing_none {source : String} (hs : source.toList = l.chars) (hw : ∀ word ∈ callWords, word ∉ symbols)
    (ho : strict = true ∨ ¬ HasUse strict symbols .key l.lexemes false) :
    Replacing strict source l symbols fun _ => none where
  source := hs
  frees := by simp [Frees]
  renames := by simp [useChanges_none, kept, Change.Renames]
  spares first others new more m hs := by
    have hmem := hs.subset (List.mem_cons_self ..)
    simp [useChanges_none, kept] at hmem
  words := hw
  opened _ _ _ := startsColon_of_opened (ho.imp_right fun hn ho => hn ((hasUse_lexemes_iff l).2 ho))

/-- What is used in an optimized text was used before, if the locators of the plan are plain. -/
theorem IsElision.hasUse_of_optimized {source : String} (hscan : scan source = .ok template)
    (he : IsElision catalog template plan parts block l cs l') (hplain : ∀ e ∈ plan, IsPlain e.module)
    (hquote : ∀ e ∈ plan, '\'' ∉ e.module.toList) (hw : ∀ word ∈ callWords, word ∉ symbols)
    (hu : HasUse strict symbols .key l'.lexemes false) : HasUse strict symbols .key l.lexemes false := by
  by_contra hn
  have h := replacing_none he.source hw (.inr hn)
  rw [he.lexemes] at hu
  refine hn ((hasUse_lexemes_iff l).2 (h.occurs_of_hasUse (rewrites_of_none he.rewrites symbols)
    (fun i s new more hs hp hu => ?_) hu))
  obtain ⟨e, hmem, hindex, t, mapping, body, params, -, hfind, hbody, hparams, hshow, hall, -⟩ := he.exists_block hp
  obtain rfl : s = t := Option.some.inj (hs.symm.trans ((find?_of_elidedIndex hindex).symm.trans hfind))
  rw [← hall] at hu
  rw [replacedText_none]
  exact statementUses_of_elidedCall (statementHolds_of_scan hscan s (List.mem_of_getElem? hs)) hbody hparams
    (hshow.callUses_of_hasUse (hplain e hmem) (hquote e hmem) hw _ hu)

/-- What was used is used in the optimized text, if it does not stand between an opening bracket and a colon. -/
theorem IsElision.hasUse_optimized {source : String} (hscan : scan source = .ok template)
    (he : IsElision catalog template plan parts block l cs l') (hw : ∀ word ∈ callWords, word ∉ symbols)
    (hu : HasUse true symbols .key l.lexemes false) : HasUse true symbols .key l'.lexemes false := by
  have h := (@replacing_none true) he.source hw (.inl rfl)
  rw [he.lexemes]
  refine h.hasUse_of_occurs (rewrites_of_none he.rewrites symbols) (fun i s new more hs hp hu => ?_)
    ((hasUse_lexemes_iff l).1 hu)
  obtain ⟨e, hmem, hindex, t, mapping, body, params, -, hfind, hbody, hparams, hshow, hall, -⟩ := he.exists_block hp
  obtain rfl : s = t := Option.some.inj (hs.symm.trans ((find?_of_elidedIndex hindex).symm.trans hfind))
  rw [← hall]
  rw [replacedText_none] at hu
  exact hshow.hasUse_of_callUses (hw _ (by decide)) _ (callUses_elidedCall he.source he.tokens hw
    (statementHolds_of_scan hscan s (List.mem_of_getElem? hs)) hbody hparams hu)

end Optimized

end BicepMigration.Migration
