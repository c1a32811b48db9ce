import BicepMigration.Proofs.Migration.Divided
import BicepMigration.Proofs.Migration.ScannableArtifacts
import BicepMigration.Proofs.Template.Datum

/-!
# Names of inputs

The inputs of a module call are named by the catalog where a property is translated and by the resource where it
stays. Properties that stay have the keys of the resource, each once. So a name is repeated exactly where two properties
are translated to one input, or an input has the name of a property that stays. Below the names of the inputs no key is
repeated.
-/

namespace BicepMigration.Template

open Value

mutual

/-- Whether an object in a value repeats a key. -/
def Value.decideDistinctKeys : (v : Value) → Decidable v.DistinctKeys
  | .array items => decideItemsDistinctKeys items
  | .object entries =>
    have := decideEntriesDistinctKeys entries
    inferInstanceAs (Decidable ((entries.map (·.key)).Nodup ∧ EntriesDistinctKeys entries))
  | .string _ => .isTrue trivial
  | .interpolated _ => .isTrue trivial
  | .number _ => .isTrue trivial
  | .bool _ => .isTrue trivial
  | .null => .isTrue trivial
  | .expression _ => .isTrue trivial

/-- Whether an object in elements repeats a key. -/
def Value.decideItemsDistinctKeys : (items : List Value) → Decidable (ItemsDistinctKeys items)
  | [] => .isTrue trivial
  | item :: rest =>
    have := item.decideDistinctKeys
    have := decideItemsDistinctKeys rest
    inferInstanceAs (Decidable (item.DistinctKeys ∧ ItemsDistinctKeys rest))

/-- Whether an object in the values of entries repeats a key. -/
def Value.decideEntriesDistinctKeys : (entries : List (Property Value)) → Decidable (EntriesDistinctKeys entries)
  | [] => .isTrue trivial
  | ⟨_, _, value, _⟩ :: rest =>
    have := value.decideDistinctKeys
    have := decideEntriesDistinctKeys rest
    inferInstanceAs (Decidable (value.DistinctKeys ∧ EntriesDistinctKeys rest))

end

instance (v : Value) : Decidable v.DistinctKeys := v.decideDistinctKeys

/-- Properties have distinct keys inside if each of their values has. -/
theorem entriesDistinctKeys_iff {entries : ObjectLiteral} :
    EntriesDistinctKeys entries ↔ ∀ p ∈ entries, p.value.DistinctKeys := by
  induction entries with
  | nil => simp [EntriesDistinctKeys]
  | cons p rest ih => simp [EntriesDistinctKeys, ih]

/-- An object has distinct keys at every depth if its own keys differ and its values have distinct keys. -/
theorem distinctKeys_object_iff {entries : ObjectLiteral} : (Value.object entries).DistinctKeys ↔
    (entries.map (·.key)).Nodup ∧ ∀ p ∈ entries, p.value.DistinctKeys := by
  rw [DistinctKeys, entriesDistinctKeys_iff]

end BicepMigration.Template

namespace BicepMigration.Migration

open Catalog Template

variable {mapping : Mapping}

/-- No value that is translated or stays repeats a key. -/
theorem Divides.distinctKeys {parent : String} {ps : ObjectLiteral} {d : Division} (h : Divides mapping parent ps d)
    (hps : ∀ p ∈ ps, p.value.DistinctKeys) :
    (∀ t ∈ d.translated, t.value.DistinctKeys) ∧ ∀ p ∈ d.residual, p.value.DistinctKeys := by
  induction h with
  | done => simp [Division.empty]
  | @translate parent input p rest others _ _ ih =>
    obtain ⟨hp, hrest⟩ := List.forall_mem_cons.1 hps
    obtain ⟨ht, hr⟩ := ih hrest
    exact ⟨List.forall_mem_cons.2 ⟨hp, ht⟩, hr⟩
  | @enter parent p entries rest inner others _ hv _ hd _ ih ih' =>
    obtain ⟨hp, hrest⟩ := List.forall_mem_cons.1 hps
    obtain ⟨ht', hr'⟩ := ih' hrest
    rw [hv] at hp
    obtain ⟨hkeys, hentries⟩ := distinctKeys_object_iff.1 hp
    obtain ⟨ht, hr⟩ := ih hentries
    have hobject : (Value.object inner.residual).DistinctKeys :=
      distinctKeys_object_iff.2 ⟨hd.keys_sublist.nodup hkeys, hr⟩
    refine ⟨List.forall_mem_append.2 ⟨ht, ht'⟩, List.forall_mem_append.2 ⟨?_, hr'⟩⟩
    simp only [Division.enclose]
    split
    · simp
    · exact List.forall_mem_singleton.2 hobject
  | @keep parent p rest others _ _ _ ih =>
    obtain ⟨hp, hrest⟩ := List.forall_mem_cons.1 hps
    obtain ⟨ht, hr⟩ := ih hrest
    exact ⟨ht, List.forall_mem_cons.2 ⟨hp, hr⟩⟩

/-- The inputs of a module call repeat a key only where an input is translated to twice or is a property that stays. -/
theorem distinctKeys_moduleParams {body : ObjectLiteral} (h : (Value.object body).DistinctKeys) :
    (Value.object (moduleParams (partition mapping body))).DistinctKeys ↔
      ((partition mapping body).translated.map (·.input)).Nodup ∧
        ∀ t ∈ (partition mapping body).translated, ∀ p ∈ (partition mapping body).residual, t.input ≠ p.key := by
  obtain ⟨hkeys, hvalues⟩ := distinctKeys_object_iff.1 h
  have hd := divides_partition mapping body
  obtain ⟨ht, hr⟩ := hd.distinctKeys fun p hp => hvalues p (List.mem_filter.1 hp).1
  have hresidual : ((partition mapping body).residual.map (·.key)).Nodup :=
    (hd.keys_sublist.trans (List.filter_sublist.map _)).nodup hkeys
  have hall : ∀ p ∈ moduleParams (partition mapping body), p.value.DistinctKeys :=
    List.forall_mem_append.2 ⟨List.forall_mem_map.2 ht, hr⟩
  have hnames : (moduleParams (partition mapping body)).map (·.key) =
      (partition mapping body).translated.map (·.input) ++ (partition mapping body).residual.map (·.key) := by
    simp [moduleParams, Property.plain, Function.comp_def]
  rw [distinctKeys_object_iff, and_iff_left hall, hnames, List.nodup_append, and_iff_right hresidual]
  simp only [List.forall_mem_map]

variable {catalog : ModuleCatalog} {template : ScannedTemplate}

/-- A plan entry with the resource that it replaces: statement, body and mapping. -/
structure Replaces (catalog : ModuleCatalog) (template : ScannedTemplate) (e : PlanEntry) (s : Statement)
    (body : ObjectLiteral) (mapping : Mapping) : Prop where
  statement : template.statements[e.statementIndex]? = some s
  body : s.body = some body
  mapping : catalog.mapping? e.mappingIndex = some mapping

/-- A plan entry replaces a resource, and it tells what is translated. -/
theorem exists_replaces {e : PlanEntry} (he : e ∈ (analyze catalog template).plan) :
    ∃ s body mapping, Replaces catalog template e s body mapping ∧
      e.translated = (partition mapping body).translated.map fun t => (t.path, t.input) := by
  obtain ⟨s, body, mapping, -, hs, hj, -, htranslated⟩ := (planned_analyze catalog template).exists_judged he
  exact ⟨s, body, mapping, ⟨hs, hj.body, hj.mapping⟩, htranslated⟩

/-- The module call that is written for a plan entry. -/
theorem Replaces.replacementEdit?_eq {e : PlanEntry} {s : Statement} {body : ObjectLiteral}
    (h : Replaces catalog template e s body mapping) (edited : EditedText) :
    replacementEdit? catalog template edited e = some ⟨s.span, (moduleCall edited e mapping s body).render edited⟩ := by
  simp [replacementEdit?, h.statement, h.body, h.mapping]

/-- A document with a mapping that translates two properties to one input. -/
def sharedDocument : Document :=
  ⟨defaultSchemaVersion, [{ accountMapping with inputs := [("a", "x"), ("b", "x")] }]⟩

/-- A resource with both properties. -/
def sharedSource : String := "resource sa 'T/a@2020-01-01' = \x7b\n  a: 1\n  b: 2\n\x7d\n"

/-- The inputs that are written for a resource without repeated keys repeat a key exactly where two properties are
translated to one input, or an input has the name of a property that stays. -/
theorem params_distinct_iff {e : PlanEntry} (he : e ∈ (analyze catalog template).plan) (edited : EditedText) :
    ∃ s body mapping params, Replaces catalog template e s body mapping ∧
      replacementEdit? catalog template edited e = some ⟨s.span, (moduleCall edited e mapping s body).render edited⟩ ∧
      ObjectLiteral.get? (moduleCall edited e mapping s body).body "params" = some (.object params) ∧
      ((Value.object body).DistinctKeys →
        ((Value.object params).DistinctKeys ↔ (e.translated.map (·.2)).Nodup ∧
          ∀ t ∈ e.translated, ∀ p ∈ (partition mapping body).residual, t.2 ≠ p.key)) := by
  obtain ⟨s, body, mapping, hr, htranslated⟩ := exists_replaces he
  refine ⟨s, body, mapping, moduleParams (partition mapping body), hr, hr.replacementEdit?_eq edited,
    get?_moduleBody _ _, fun hbody => ?_⟩
  rw [distinctKeys_moduleParams hbody, htranslated]
  simp only [List.map_map, Function.comp_def, List.forall_mem_map]

/-- Two properties of the resource have the same input. -/
theorem exists_replaces_shared :
    ∃ e ∈ (analyze (catalogOf sharedDocument) (templateOf sharedSource)).plan, ∃ s body mapping,
      Replaces (catalogOf sharedDocument) (templateOf sharedSource) e s body mapping ∧
        mapping.inputs = [("a", "x"), ("b", "x")] ∧ body.map (·.key) = ["a", "b"] ∧ (Value.object body).DistinctKeys := by
  have hplan : (analyze (catalogOf sharedDocument) (templateOf sharedSource)).plan.map
      (fun e => (e.statementIndex, e.mappingIndex)) = [(0, 0)] := by decide +kernel
  have hinputs : ((catalogOf sharedDocument).mapping? 0).map (·.inputs) = some [("a", "x"), ("b", "x")] := by
    decide +kernel
  have hbodies : ((templateOf sharedSource).statements[0]?.bind (·.body)).all (fun body =>
      decide (body.map (·.key) = ["a", "b"]) && decide (Value.object body).DistinctKeys) = true := by decide +kernel
  obtain ⟨e, he, hindex⟩ := List.mem_map.1 (hplan ▸ List.mem_singleton_self (0, 0))
  obtain ⟨hstatement, hmapping⟩ := Prod.mk.inj hindex
  obtain ⟨s, body, mapping, hr, -⟩ := exists_replaces he
  have hs := hr.statement
  have hm := hr.mapping
  rw [hstatement] at hs
  rw [hmapping] at hm
  rw [hm] at hinputs
  rw [hs, Option.bind_some, hr.body, Option.all_some, Bool.and_eq_true, decide_eq_true_eq, decide_eq_true_eq] at hbodies
  exact ⟨e, he, s, body, mapping, hr, Option.some.inj hinputs, hbodies⟩

theorem params_distinct_iff_shared :
    ∃ e ∈ (analyze (catalogOf sharedDocument) (templateOf sharedSource)).plan, ∃ s body mapping params,
      Replaces (catalogOf sharedDocument) (templateOf sharedSource) e s body mapping ∧
        ObjectLiteral.get? (moduleCall (.unedited sharedSource) e mapping s body).body "params" =
          some (.object params) ∧
        ((Value.object body).DistinctKeys →
          ((Value.object params).DistinctKeys ↔ (e.translated.map (·.2)).Nodup ∧
            ∀ t ∈ e.translated, ∀ p ∈ (partition mapping body).residual, t.2 ≠ p.key)) := by
  obtain ⟨e, he, -⟩ := exists_replaces_shared
  obtain ⟨s, body, mapping, params, hr, -, hrest⟩ := params_distinct_iff he (.unedited sharedSource)
  exact ⟨e, he, s, body, mapping, params, hr, hrest⟩

/-- A catalog that passes the checks makes a resource without repeated keys repeat an input. -/
theorem params_repeat_shared :
    ModuleCatalog.ofDocument sharedDocument = .ok (catalogOf sharedDocument) ∧
      scan sharedSource = .ok (templateOf sharedSource) ∧
      ∃ e ∈ (analyze (catalogOf sharedDocument) (templateOf sharedSource)).plan, ∃ s body mapping,
        Replaces (catalogOf sharedDocument) (templateOf sharedSource) e s body mapping ∧
          (Value.object body).DistinctKeys ∧
          ∀ edited, ∃ params,
            ObjectLiteral.get? (moduleCall edited e mapping s body).body "params" = some (.object params) ∧
              ¬ (Value.object params).DistinctKeys := by
  refine ⟨ofDocument_eq (by decide +kernel), scan_eq (by decide +kernel), ?_⟩
  obtain ⟨e, he, s, body, mapping, hr, hinputs, hkeys, hdistinct⟩ := exists_replaces_shared
  refine ⟨e, he, s, body, mapping, hr, hdistinct, fun edited => ⟨_, get?_moduleBody _ _, fun h => ?_⟩⟩
  have hnodup := ((distinctKeys_moduleParams hdistinct).1 h).1
  obtain ⟨p, others, rfl, hp, hothers⟩ := List.map_eq_cons_iff.1 hkeys
  obtain ⟨q, nothing, rfl, hq, hnothing⟩ := List.map_eq_cons_iff.1 hothers
  obtain rfl := List.map_eq_nil_iff.1 hnothing
  have hp' : Json.entry? mapping.inputs (childPath "" p.key) = some "x" := by rw [hinputs, hp]; decide
  have hq' : Json.entry? mapping.inputs (childPath "" q.key) = some "x" := by rw [hinputs, hq]; decide
  have htwice : (partition mapping [p, q]).translated.map (·.input) = ["x", "x"] := by
    have hfilter : [p, q].filter (fun p => !hoistedKeys.contains p.key) = [p, q] := by simp [hoistedKeys, hp, hq]
    rw [partition, hfilter, divide_of_input hp', divide_of_input hq', divide]
    rfl
  rw [htwice] at hnodup
  exact absurd hnodup (by decide)

end BicepMigration.Migration
