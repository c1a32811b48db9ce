import BicepMigration.Proofs.Migration.Correspondence
import BicepMigration.Proofs.Migration.LeftProperties
import BicepMigration.Proofs.Migration.PrunedStops

/-!
# Properties without an input are retained

The properties of a resource that no input stands for are written among the inputs, under the keys that they had. The
removal of defaults does not know them: an input goes if a default has its path. Main statement: such a property is
found again in the output exactly if the removal leaves it, which it does with an object that keeps a property, and
always if nothing is removed at its path, above it or below it.
-/

namespace BicepMigration.Migration

open Catalog Template

section Dividing

variable {mapping : Mapping} {parent : String} {ps : ObjectLiteral} {d : Division}

/-- A property without an input is found under the same keys in what stays. -/
theorem Divides.exists_keys (h : Divides mapping parent ps d) {u : Unmapped} (hu : u ∈ d.unmapped) :
    ∃ keys, u.path = keys.foldl childPath parent ∧ HasKeys ps keys ∧ HasKeys d.residual keys := by
  induction h with
  | done => cases hu
  | translate _ _ ih =>
    obtain ⟨keys, hpath, hps, hd⟩ := ih hu
    exact ⟨keys, hpath, hps.subset fun _ => List.mem_cons_of_mem _, hd⟩
  | @enter parent p entries rest inner others _ hv _ _ _ ih ih' =>
    rcases List.mem_append.1 hu with hu | hu
    · obtain ⟨keys, hpath, hps, hd⟩ := ih hu
      have hsome : inner.residual ≠ [] := by
        intro hnil
        rw [hnil] at hd
        cases hd <;> contradiction
      refine ⟨p.key :: keys, hpath, .nested List.mem_cons_self hv hps, ?_⟩
      simp only [Division.append, Division.enclose, List.isEmpty_iff, if_neg hsome]
      exact @HasKeys.nested _ _ ⟨p.key, p.quoted, .object inner.residual, p.line⟩ _ List.mem_cons_self rfl hd
    · obtain ⟨keys, hpath, hps, hd⟩ := ih' hu
      exact ⟨keys, hpath, hps.subset fun _ => List.mem_cons_of_mem _, hd.subset fun _ => List.mem_append_right _⟩
  | @keep parent p rest others _ _ _ ih =>
    rcases List.mem_append.1 hu with hu | hu
    · obtain rfl := List.mem_singleton.1 hu
      exact ⟨[p.key], rfl, .last List.mem_cons_self, .last List.mem_cons_self⟩
    · obtain ⟨keys, hpath, hps, hd⟩ := ih hu
      exact ⟨keys, hpath, hps.subset fun _ => List.mem_cons_of_mem _, hd.subset fun _ => List.mem_cons_of_mem _⟩

end Dividing

variable {catalog : ModuleCatalog} {template optimized : ScannedTemplate}

/-- The resource of a plan entry has a property under keys. -/
def HasProperty (template : ScannedTemplate) (e : PlanEntry) (keys : List String) : Prop :=
  ∃ s body, template.statements[e.statementIndex]? = some s ∧ s.body = some body ∧ HasKeys body keys

/-- The property of a resource at a path is found among the inputs of its module call, under the same keys. -/
def Retained (template optimized : ScannedTemplate) (e : PlanEntry) (path : String) : Prop :=
  ∃ s body s' contents inputs keys, template.statements[e.statementIndex]? = some s ∧ s.body = some body ∧
    optimized.find? .module e.newSymbol = some s' ∧ paramsOf? s' = some (contents, inputs) ∧
    path = keyPath keys ∧ HasKeys body keys ∧ HasKeys inputs keys

section Inputs

variable {mapping : Mapping} {s s' : Statement} {old contents inputs : ObjectLiteral} {e : PlanEntry}

/-- A call that is found under its symbol has the inputs that are read of it. -/
theorem ReadsParams.hasInputs (h : ReadsParams catalog e s s' mapping old contents inputs) {migrated : ScannedTemplate}
    (hs : migrated.find? .module e.newSymbol = some s') : HasInputs catalog migrated e mapping s' contents inputs :=
  ⟨h.judged.mapping, hs, h.body, h.params⟩

/-- A property without an input is one of the inputs of the module call. -/
theorem ReadsParams.exists_keys (h : ReadsParams catalog e s s' mapping old contents inputs) {path : String}
    (hp : path ∈ (partition mapping old).unmapped.map (·.path)) :
    ∃ keys, path = keyPath keys ∧ HasKeys old keys ∧ HasKeys inputs keys := by
  obtain ⟨u, hu, rfl⟩ := List.mem_map.1 hp
  obtain ⟨keys, hpath, hold, hleft⟩ := (divides_partition mapping old).exists_keys hu
  refine ⟨keys, hpath, hold.subset fun p hp => (List.mem_filter.1 hp).1, h.nested keys ?_⟩
  exact hleft.subset fun p hp => List.mem_append_right _ hp

/-- A property of the resource is found again in the output exactly if the removal of defaults leaves it among the
inputs. -/
theorem HasInputs.retained_iff {migrated : ScannedTemplate} {plan : List PlanEntry}
    (h : HasInputs catalog migrated e mapping s contents inputs) (he : e ∈ plan)
    (hplan : plan.Pairwise fun a b => a.newSymbol ≠ b.newSymbol)
    (hall : List.Forall₂ (fun p s' => Elides catalog migrated plan p.2 p.1 s') migrated.statements.zipIdx
      optimized.statements) {path : String} :
    Retained template optimized e path ↔
      ∃ keys, path = keyPath keys ∧ HasProperty template e keys ∧ Stays mapping.defaults "" inputs keys := by
  obtain ⟨t, contents', left, ht, hsame⟩ := h.exists_optimized he hplan hall
  have hparams : paramsOf? t = some (contents', left) := paramsOf?_eq_some.2 ⟨ht.body, ht.params⟩
  have hleaves (keys : List String) : HasKeys left keys ↔ Stays mapping.defaults "" inputs keys := by
    rw [← (prunes_prune e.newSymbol "" inputs).hasKeys_iff]
    exact ⟨fun h => hasKeys_of_unplaced h hsame.symm, fun h => hasKeys_of_unplaced h hsame⟩
  constructor
  · rintro ⟨s, body, t', contents'', left', keys, hs, hbody, ht', hparams', hkeys, hold, hhas⟩
    obtain rfl := Option.some.inj (ht'.symm.trans ht.statement)
    obtain ⟨-, rfl⟩ := Prod.mk.inj (Option.some.inj (hparams'.symm.trans hparams))
    exact ⟨keys, hkeys, ⟨s, body, hs, hbody, hold⟩, (hleaves keys).1 hhas⟩
  · rintro ⟨keys, hkeys, ⟨s, body, hs, hbody, hold⟩, hstays⟩
    exact ⟨s, body, t, contents', left, keys, hs, hbody, ht.statement, hparams, hkeys, hold, (hleaves keys).2 hstays⟩

end Inputs

section WithoutInputs

/-- The parts of a body whose properties have no inputs. -/
def partsKept (body : ObjectLiteral) : Partition :=
  let kept := body.filter fun p => !hoistedKeys.contains p.key
  ⟨⟨[], kept, kept.map fun p => ⟨p.key, p.line⟩⟩, body.filter fun p => hoistedKeys.contains p.key⟩

/-- Without inputs of the mapping every property is kept or hoisted. -/
theorem partition_of_inputs_nil {mapping : Mapping} (h : mapping.inputs = []) (body : ObjectLiteral) :
    partition mapping body = partsKept body := by
  rw [partition, divide_of_inputs_nil h]
  rfl

/-- The edit that replaces a resource whose properties have no inputs. -/
def keptEdit? (template : ScannedTemplate) (edited : EditedText) (entry : PlanEntry) : Option Edit := do
  let s ← template.statements[entry.statementIndex]?
  let body ← s.body
  some ⟨s.span, ModuleCall.render edited
    { decorators := (s.decorators.filter isCarried).map edited.fragment
      symbol := entry.newSymbol
      locator := entry.module
      condition := s.condition.map edited.fragment
      body := moduleBody entry.newSymbol (partsKept body) }⟩

/-- The text of a migrated template whose catalog has no inputs. -/
theorem transform_of_inputs_nil (h : ∀ entry ∈ catalog.entries, entry.mapping.inputs = []) :
    (transform catalog template (analyze catalog template)).text = (EditedText.ofEdits template.source
      (referenceEdits catalog (analyze catalog template) ++ (analyze catalog template).plan.filterMap (keptEdit?
        template (.ofEdits template.source (referenceEdits catalog (analyze catalog template)))))).apply := by
  rw [transform_text, callEdits]
  congr 3
  refine List.filterMap_congr fun e he => ?_
  obtain ⟨s, body, mapping, -, hs, hj, hmodule, -⟩ := (planned_analyze catalog template).exists_judged he
  rw [Nat.sub_zero] at hs
  have hinputs : mapping.inputs = [] := by
    obtain ⟨entry, hentry, rfl⟩ := Option.map_eq_some_iff.1 hj.mapping
    exact h entry (List.mem_of_getElem? hentry)
  simp only [replacementEdit?, keptEdit?, hs, hj.body, hj.mapping, Option.bind_eq_bind, Option.bind_some, moduleCall,
    partition_of_inputs_nil hinputs, hmodule]

end WithoutInputs

/-- What becomes of a property without an input at a path: the inputs of the module call are given, with the defaults of
the module and what is removed. -/
structure RetainedUnless (defaults : List (String × Json)) (inputs : ObjectLiteral) (removed : List (String × String))
    (template optimized : ScannedTemplate) (e : PlanEntry) (path : String) : Prop where
  /-- It is one of the inputs, under the keys that it had. -/
  written : ∃ keys, path = keyPath keys ∧ HasProperty template e keys ∧ HasKeys inputs keys
  /-- It is found again in the output exactly if the removal of defaults leaves it. -/
  retained : Retained template optimized e path ↔
    ∃ keys, path = keyPath keys ∧ HasProperty template e keys ∧ Stays defaults "" inputs keys
  /-- So it is if nothing is removed at its path, above it or below it. -/
  untouched : (∀ gone, (e.newSymbol, gone) ∈ removed → ¬ PathWithin path gone ∧ ¬ PathWithin gone path) →
    Retained template optimized e path

/-- A property without an input is written among the inputs, and it is found again in the output, under the same keys,
exactly if the removal of defaults leaves it. -/
theorem unmapped_retained {document : Document} (hd : ModuleCatalog.ofDocument document = .ok catalog)
    (hplain : PlainLocators catalog) (name : String) {source : String} (h : scan source = .ok template) :
    ∃ r migrated optimized, resolve catalog name source = .ok r ∧ scan r.transformation.text = .ok migrated ∧
      scan r.output = .ok optimized ∧ ∀ e ∈ r.transformation.plan, ∃ mapping s contents inputs,
        HasInputs catalog migrated e mapping s contents inputs ∧ ∀ path ∈ e.unmapped,
          RetainedUnless mapping.defaults inputs
            (optimize catalog r.transformation.plan r.transformation.text).removed template optimized e path := by
  have hc := isChecked_ofDocument hd
  obtain ⟨hw, hlocators⟩ := writable_plan hd hplain h
  have hplanned := planned_analyze catalog template
  have hplan := hplanned.newSymbol_not_mem.2
  obtain ⟨migrated, hm, hall⟩ := exists_migrated h hc hlocators rfl
  obtain ⟨optimized, ho, helides⟩ := (@exists_elides catalog) hm hplan hw hlocators
  refine ⟨resolveScanned catalog name template, migrated, optimized, by rw [resolve, h]; rfl, hm, ho, fun e he => ?_⟩
  change e ∈ (analyze catalog template).plan at he
  obtain ⟨s, s', hs, hs', hsaid⟩ := exists_call hall he
  obtain ⟨mapping, body, contents, inputs, hreads⟩ := hsaid.exists_readsParams
  have hcall := hreads.hasInputs hs'
  refine ⟨mapping, s', contents, inputs, hcall, fun path hpath => ?_⟩
  rw [hplanned.unmapped_eq he hs hreads.judged] at hpath
  have hretained : Retained template optimized e path ↔ _ := hcall.retained_iff he hplan helides
  have hprunes := @prunes_prune mapping.defaults e.newSymbol "" inputs
  rw [← hcall.removedInputs_eq] at hprunes
  obtain ⟨keys, rfl, hold, hinputs⟩ := hreads.exists_keys hpath
  have hproperty : HasProperty template e keys := ⟨s, body, hs, hreads.judged.body, hold⟩
  refine ⟨⟨keys, rfl, hproperty, hinputs⟩, hretained, fun hgone => ?_⟩
  refine hretained.2 ⟨keys, rfl, hproperty, hprunes.hasKeys_iff.1 (hprunes.hasKeys ?_ hinputs fun gone hmem => ?_)⟩
  · exact (isPropertyPath_of_fault (hc _ _ hreads.judged.mapping)).2
  · refine hgone gone ?_
    change (e.newSymbol, gone) ∈ (optimize catalog (analyze catalog template).plan
      (transform catalog template (analyze catalog template)).text).removed
    rw [removed_optimize hm]
    exact List.mem_flatMap.2 ⟨e, he, List.mem_map_of_mem hmem⟩

section Sized

/-- A resource whose properties have no inputs is migrated to a module call, and these are the paths of the properties. -/
structure MigratesTo (resource call : String) (paths : List String) : Prop where
  scanned : scan resource = .ok (templateOf resource)
  rescanned : scan call = .ok (templateOf call)
  planned : ∃ e, (analyze (catalogOf sizedDocument) (templateOf resource)).plan = [e] ∧ e.newSymbol = "saModule" ∧
    e.statementIndex = 0 ∧ e.unmapped = paths
  transformed : (transform (catalogOf sizedDocument) (templateOf resource)
    (analyze (catalogOf sizedDocument) (templateOf resource))).text = call

/-- The defaults of the mapping: one for a property, and one for a property inside an object. -/
def sizedDefaults : List (String × Json) := [("kind", .string "x"), ("sku.tier", .string "std")]

/-- The mapping has no inputs. -/
theorem inputs_sized : ∀ entry ∈ (catalogOf sizedDocument).entries, entry.mapping.inputs = [] := by decide +kernel

/-- The mapping has a default for a property and one inside an object. -/
theorem defaults_sized {i : Nat} {mapping : Mapping} (h : (catalogOf sizedDocument).mapping? i = some mapping) :
    mapping.defaults = sizedDefaults := by
  obtain ⟨entry, hentry, rfl⟩ := Option.map_eq_some_iff.1 h
  obtain ⟨hmem, -⟩ := mapping_of_ofDocument ofDocument_sized entry (List.mem_of_getElem? hentry)
  rw [List.mem_singleton.1 hmem]
  rfl

/-- What has to be read of a resource and of its module call, all at once. -/
theorem migratesTo_of_read {resource call : String} {paths : List String}
    (h : (scan resource).isOk = true ∧ (scan call).isOk = true ∧
      (analyze (catalogOf sizedDocument) (templateOf resource)).plan.map
        (fun e => (e.newSymbol, e.statementIndex)) = [("saModule", 0)] ∧
      ((templateOf resource).statements[0]?.bind (·.body)).map (fun body =>
        (partsKept body).unmapped.map (·.path)) = some paths ∧
      (EditedText.ofEdits (templateOf resource).source
        (referenceEdits (catalogOf sizedDocument) (analyze (catalogOf sizedDocument) (templateOf resource)) ++
          (analyze (catalogOf sizedDocument) (templateOf resource)).plan.filterMap (keptEdit?
            (templateOf resource) (.ofEdits (templateOf resource).source (referenceEdits
              (catalogOf sizedDocument) (analyze (catalogOf sizedDocument) (templateOf resource))))))).apply = call) :
    MigratesTo resource call paths where
  scanned := scan_eq h.1
  rescanned := scan_eq h.2.1
  planned := by
    obtain ⟨-, -, hplan, hbody, -⟩ := h
    obtain ⟨e, hplan, heq⟩ := List.map_eq_singleton_iff.1 hplan
    obtain ⟨hnew, hindex⟩ := Prod.mk.inj heq
    have hplanned := planned_analyze (catalogOf sizedDocument) (templateOf resource)
    have he : e ∈ (analyze (catalogOf sizedDocument) (templateOf resource)).plan := by simp [hplan]
    obtain ⟨s, body, mapping, -, hs, hj, -⟩ := hplanned.exists_judged he
    refine ⟨e, hplan, hnew, hindex, ?_⟩
    rw [hplanned.unmapped_eq he hs hj, partition_of_inputs_nil ?_]
    · rw [Nat.sub_zero, hindex] at hs
      rw [hs, Option.bind_some, hj.body] at hbody
      exact Option.some.inj hbody
    · obtain ⟨entry, hentry, rfl⟩ := Option.map_eq_some_iff.1 hj.mapping
      exact inputs_sized entry (List.mem_of_getElem? hentry)
  transformed := by rw [transform_of_inputs_nil inputs_sized, h.2.2.2.2]

/-- The resource is resolved. -/
theorem MigratesTo.resolve_eq {resource call : String} {paths : List String} (h : MigratesTo resource call paths) :
    resolve (catalogOf sizedDocument) "main" resource =
      .ok (resolveScanned (catalogOf sizedDocument) "main" (templateOf resource)) := by
  rw [resolve, h.scanned]
  rfl

/-- A resource with a property that equals a default and one without a default. -/
def sizedResource : String := "resource sa 'T/a@2020-01-01' = \x7b\n  kind: 'x'\n  size: 2\n\x7d\n"

/-- The module call of the resource. -/
def sizedCall : String :=
  "module saModule 'br:m/a' = \x7b\n  name: 'saModule'\n  params: \x7b\n    kind: 'x'\n    size: 2\n  \x7d\n\x7d\n"

theorem migratesTo_sized : MigratesTo sizedResource sizedCall ["kind", "size"] :=
  migratesTo_of_read (by decide +kernel)

/-- The inputs of the module call are the properties of the resource, and the first one is removed. -/
theorem kept_sized {e : PlanEntry} (he : e.newSymbol = "saModule") {mapping : Mapping} {s : Statement}
    {contents inputs : ObjectLiteral}
    (h : HasInputs (catalogOf sizedDocument) (templateOf sizedCall) e mapping s contents inputs) :
    (prune mapping.defaults e.newSymbol "" inputs).kept.map (·.key) = ["size"] := by
  have hfound : (((templateOf sizedCall).find? .module "saModule").bind paramsOf?).map (fun found =>
      found.2.map fun p => (p.key, p.value.literalEq (.string "x"))) =
        some [("kind", some true), ("size", some false)] := by decide +kernel
  rw [← he, h.statement, Option.bind_some, paramsOf?_eq_some.2 ⟨h.body, h.params⟩] at hfound
  obtain ⟨p, rest, rfl, hp, hrest⟩ := List.map_eq_cons_iff.1 (Option.some.inj hfound)
  obtain ⟨q, rfl, hq⟩ := List.map_eq_singleton_iff.1 hrest
  obtain ⟨hkind, hequal⟩ := Prod.mk.inj hp
  obtain ⟨hsize, -⟩ := Prod.mk.inj hq
  have hdefault : Json.entry? sizedDefaults (childPath "" p.key) = some (.string "x") := by
    rw [hkind]
    rfl
  rw [defaults_sized h.mapping, prune_of_default hdefault, pruneAgainst, hequal,
    prune_of_pass (by rw [hsize]; rfl) fun _ _ => by rw [hsize]; decide, prune]
  simp [Pruning.append, Pruning.keep, Pruning.empty, hsize]

/-- A resource with an object of which one property equals a default. -/
def tieredResource : String :=
  "resource sa 'T/a@2020-01-01' = \x7b\n  sku: \x7b\n    tier: 'std'\n    name: 'b'\n  \x7d\n\x7d\n"

/-- The module call of the resource. -/
def tieredCall : String :=
  "module saModule 'br:m/a' = \x7b\n  name: 'saModule'\n  params: \x7b\n    sku: \x7b\n      tier: 'std'\n" ++
    "      name: 'b'\n    \x7d\n  \x7d\n\x7d\n"

theorem migratesTo_tiered : MigratesTo tieredResource tieredCall ["sku"] :=
  migratesTo_of_read (by decide +kernel)

/-- The resource has the object. -/
theorem hasProperty_tiered {e : PlanEntry} (h : e.statementIndex = 0) :
    HasProperty (templateOf tieredResource) e ["sku"] := by
  have hfound : ((templateOf tieredResource).statements[0]?.bind (·.body)).map (fun body => body.map (·.key)) =
      some ["sku"] := by decide +kernel
  obtain ⟨body, hsome, hkeys⟩ := Option.map_eq_some_iff.1 hfound
  obtain ⟨s, hs, hbody⟩ := Option.bind_eq_some_iff.1 hsome
  obtain ⟨p, rfl, hp⟩ := List.map_eq_singleton_iff.1 hkeys
  exact ⟨s, [p], h ▸ hs, hbody, hp ▸ .last List.mem_cons_self⟩

/-- The input of the module call is an object that loses a property and keeps another one. -/
theorem inputs_tiered {e : PlanEntry} (he : e.newSymbol = "saModule") {mapping : Mapping} {s : Statement}
    {contents inputs : ObjectLiteral}
    (h : HasInputs (catalogOf sizedDocument) (templateOf tieredCall) e mapping s contents inputs) :
    Stays mapping.defaults "" inputs ["sku"] ∧ "sku.tier" ∈ (prune mapping.defaults e.newSymbol "" inputs).removed := by
  have hfound : (((templateOf tieredCall).find? .module "saModule").bind paramsOf?).map (fun found =>
      (stopsUnder (sizedDefaults.map (·.1)) [] found.2).map fun s => (s.keys, s.isElided sizedDefaults)) =
        some [(["sku", "tier"], true), (["sku", "name"], false)] := by decide +kernel
  rw [← he, h.statement, Option.bind_some, paramsOf?_eq_some.2 ⟨h.body, h.params⟩] at hfound
  obtain ⟨tier, rest, hstops, htier, hrest⟩ := List.map_eq_cons_iff.1 (Option.some.inj hfound)
  obtain ⟨other, rfl, hother⟩ := List.map_eq_singleton_iff.1 hrest
  obtain ⟨htier, hgone⟩ := Prod.mk.inj htier
  obtain ⟨hother, hleft⟩ := Prod.mk.inj hother
  have hpruned := prunesStops_root mapping.defaults e.newSymbol inputs
  have hprunes := @prunes_prune mapping.defaults e.newSymbol "" inputs
  rw [defaults_sized h.mapping] at hpruned hprunes ⊢
  constructor
  · have hmem : other ∈ stopsUnder (sizedDefaults.map (·.1)) [] (prune sizedDefaults e.newSymbol "" inputs).kept := by
      rw [hpruned.kept, hstops]
      simp [hleft]
    obtain ⟨key, more, hkeys, hkey⟩ := exists_keys_of_mem_sites (List.mem_filter.1 hmem).1
    obtain rfl : "sku" = key := (List.cons.inj (hother.symm.trans hkeys)).1
    obtain ⟨p, hp, hpkey⟩ := List.mem_map.1 hkey
    exact hprunes.hasKeys_iff.1 (hpkey ▸ .last hp)
  · rw [hpruned.removed, hstops]
    simp [hgone, Site.path, htier, keyPath, childPath]

end Sized

/-- An object that loses one property and keeps another one is found again. -/
theorem unmapped_retained_tiered :
    ModuleCatalog.ofDocument sizedDocument = .ok (catalogOf sizedDocument) ∧
      PlainLocators (catalogOf sizedDocument) ∧ scan tieredResource = .ok (templateOf tieredResource) ∧
      ∃ r optimized, resolve (catalogOf sizedDocument) "main" tieredResource = .ok r ∧ scan r.output = .ok optimized ∧
        ∃ e ∈ r.transformation.plan, "sku" ∈ e.unmapped ∧
          (e.newSymbol, "sku.tier") ∈
            (optimize (catalogOf sizedDocument) r.transformation.plan r.transformation.text).removed ∧
          Retained (templateOf tieredResource) optimized e "sku" := by
  obtain ⟨e, hplan, hnew, hindex, hunmapped⟩ := migratesTo_tiered.planned
  obtain ⟨r, migrated, optimized, hr, hm, ho, hall⟩ :=
    unmapped_retained ofDocument_sized plainLocators_sized "main" migratesTo_tiered.scanned
  obtain rfl := Except.ok.inj (hr.symm.trans migratesTo_tiered.resolve_eq)
  have he : e ∈ (analyze (catalogOf sizedDocument) (templateOf tieredResource)).plan := by simp [hplan]
  obtain ⟨mapping, s, contents, inputs, hinputs, hretained⟩ := hall e he
  have hsku : "sku" ∈ e.unmapped := by simp [hunmapped]
  change scan (transform (catalogOf sizedDocument) (templateOf tieredResource) (analyze _ _)).text = _ at hm
  rw [migratesTo_tiered.transformed, migratesTo_tiered.rescanned] at hm
  obtain rfl := Except.ok.inj hm
  obtain ⟨hstays, hremoved⟩ := inputs_tiered hnew hinputs
  refine ⟨ofDocument_sized, plainLocators_sized, migratesTo_tiered.scanned, _, optimized, hr, ho, e, he, hsku, ?_,
    (hretained "sku" hsku).retained.2 ⟨["sku"], rfl, hasProperty_tiered hindex, hstays⟩⟩
  · change (e.newSymbol, "sku.tier") ∈
      (optimize (catalogOf sizedDocument) (analyze _ _).plan (transform _ _ _).text).removed
    rw [migratesTo_tiered.transformed, removed_optimize migratesTo_tiered.rescanned, hplan, List.flatMap_singleton,
      hinputs.removedInputs_eq]
    exact List.mem_map_of_mem hremoved

/-- A property that equals a default is lost. -/
theorem unmapped_pruned :
    ∃ r optimized, resolve (catalogOf sizedDocument) "main" sizedResource = .ok r ∧ scan r.output = .ok optimized ∧
      ∃ e ∈ r.transformation.plan, "kind" ∈ e.unmapped ∧ ¬ Retained (templateOf sizedResource) optimized e "kind" := by
  obtain ⟨e, hplan, hnew, -, hunmapped⟩ := migratesTo_sized.planned
  have hplanned := planned_analyze (catalogOf sizedDocument) (templateOf sizedResource)
  have he : e ∈ (analyze (catalogOf sizedDocument) (templateOf sizedResource)).plan := by simp [hplan]
  have hc := isChecked_ofDocument ofDocument_sized
  obtain ⟨hw, hlocators⟩ := writable_plan ofDocument_sized plainLocators_sized migratesTo_sized.scanned
  have hsymbols := hplanned.newSymbol_not_mem.2
  obtain ⟨migrated, hm, hcalls⟩ := exists_migrated migratesTo_sized.scanned hc hlocators rfl
  rw [migratesTo_sized.transformed, migratesTo_sized.rescanned] at hm
  obtain rfl := Except.ok.inj hm
  obtain ⟨s, s', -, hs', hsaid⟩ := exists_call hcalls he
  obtain ⟨mapping, body, contents, inputs, hreads⟩ := hsaid.exists_readsParams
  have hcall := hreads.hasInputs hs'
  have hkept := kept_sized hnew hcall
  obtain ⟨optimized, ho, hall⟩ := exists_elides migratesTo_sized.rescanned hsymbols hw hlocators
  refine ⟨_, optimized, migratesTo_sized.resolve_eq, ?_, e, he, by simp [hunmapped], fun hretained => ?_⟩
  · change scan (optimize _ (analyze _ _).plan (transform _ _ _).text).text = _
    rw [migratesTo_sized.transformed, ho]
  · obtain ⟨keys, hpath, -, hstays⟩ := (hcall.retained_iff he hsymbols hall).1 hretained
    obtain ⟨key, others, rfl, hkey⟩ := ((prunes_prune e.newSymbol "" inputs).hasKeys_iff.2 hstays).exists_head
    obtain rfl : key = "size" := by simpa [hkept] using hkey
    have hwithin : PathWithin "kind" "size" := hpath ▸ pathWithin_foldl (show "size" ≠ "" by decide) others
    exact absurd hwithin (by decide)

end BicepMigration.Migration
