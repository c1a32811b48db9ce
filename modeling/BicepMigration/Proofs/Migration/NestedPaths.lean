import BicepMigration.Proofs.Catalog.Precedence
import BicepMigration.Proofs.Migration.PrunedStops
import BicepMigration.Proofs.Migration.ScannableArtifacts

/-!
# Keys on the way and parts of a path

A path of a catalog is meant to lead from key to key. The walks compare whole paths, and a key that is written as a
string may have a point in it. So the keys that lead to a property with an input or a default are the parts of its path
exactly where none of them has a point.
-/

namespace BicepMigration.Migration

open Catalog Template

/-- The keys that lead to a property are the parts of its path between points. -/
def Site.IsNested (s : Site) : Prop := s.keys.map String.toList = pathParts s.path.toList

/-- Some key on the way to a property has a point in it. -/
def Site.HasPointedKey (s : Site) : Prop := ∃ key ∈ s.keys, '.' ∈ key.toList

instance (s : Site) : Decidable s.IsNested := inferInstanceAs (Decidable (_ = _))

instance (s : Site) : Decidable s.HasPointedKey := inferInstanceAs (Decidable (∃ _ ∈ _, _))

section Stops

variable {paths : List String} {ps : ObjectLiteral} {s : Site}

/-- No key that leads to one of the paths starts with nothing. -/
theorem head?_ne_empty (hpaths : ∀ p ∈ paths, isPropertyPath p = true) (hs : s ∈ stops paths ps)
    (hp : s.path ∈ paths) : s.keys.head? ≠ some "" := by
  obtain ⟨hsite, hstop⟩ := List.mem_filter.1 hs
  obtain ⟨key, more, hkeys, -⟩ := exists_keys_of_mem_sites hsite
  rw [List.nil_append] at hkeys
  rw [hkeys]
  intro hhead
  obtain rfl : key = "" := Option.some.inj hhead
  cases more with
  | nil => exact ne_empty_of_isPropertyPath (hpaths _ hp) (by rw [Site.path, hkeys]; rfl)
  | cons next rest =>
    -- the first object would be entered, so that a point starts one of the paths
    have hreached : s.IsReached paths := (of_decide_eq_true hstop).1
    obtain ⟨-, p, hmem, hprefix⟩ := hreached 1 (by simp [hkeys]) Nat.one_pos
    rw [hkeys] at hprefix
    exact head_ne_point_of_isPropertyPath (hpaths p hmem) hprefix

/-- A property with one of the paths stands under its parts unless a key has a point. -/
theorem isNested_iff (hpaths : ∀ p ∈ paths, isPropertyPath p = true) (hs : s ∈ stops paths ps) (hp : s.path ∈ paths) :
    s.IsNested ↔ ¬ s.HasPointedKey := by
  have hpath : s.path.toList = ['.'].intercalate (s.keys.map String.toList) := by
    rw [Site.path, keyPath_eq_intercalate (head?_ne_empty hpaths hs hp), String.toList_intercalate]
    rfl
  constructor
  · rintro hnested ⟨key, hkey, hpoint⟩
    exact point_not_mem_of_mem_pathParts (hnested ▸ List.mem_map_of_mem hkey) hpoint
  · intro hno
    obtain ⟨key, more, hkeys, -⟩ := exists_keys_of_mem_sites (List.mem_filter.1 hs).1
    have hne : s.keys.map String.toList ≠ [] := by simp [hkeys]
    rw [Site.IsNested, hpath, pathParts_intercalate hne]
    intro part hpart hpoint
    obtain ⟨key, hkey, rfl⟩ := List.mem_map.1 hpart
    exact hno ⟨key, hkey, hpoint⟩

end Stops

/-- The paths of the defaults of a mapping. -/
def defaultPaths (mapping : Mapping) : List String := mapping.defaults.map (·.1)

/-- What a mapping translates in a body and compares in inputs is known with its keys, and they are the parts of its path
where no key has a point. -/
structure FollowsKeys (mapping : Mapping) : Prop where
  translated (body : ObjectLiteral) : (partition mapping body).translated =
    (stops (inputPaths mapping) (ownProperties body)).filterMap (Site.translation? mapping)
  isNested_translated (body : ObjectLiteral) : ∀ s ∈ stops (inputPaths mapping) (ownProperties body),
    s.path ∈ inputPaths mapping → (s.IsNested ↔ ¬ s.HasPointedKey)
  pruned (module : String) (inputs : ObjectLiteral) :
    PrunesStops mapping.defaults module [] inputs (prune mapping.defaults module "" inputs)
  isNested_compared (inputs : ObjectLiteral) : ∀ s ∈ stops (defaultPaths mapping) inputs,
    s.path ∈ defaultPaths mapping → (s.IsNested ↔ ¬ s.HasPointedKey)

/-- A mapping of a catalog that was read follows the keys of objects. -/
theorem followsKeys_of_ofDocument {document : Document} {catalog : ModuleCatalog} {i : Nat} {mapping : Mapping}
    (hd : ModuleCatalog.ofDocument document = .ok catalog) (hm : catalog.mapping? i = some mapping) :
    FollowsKeys mapping := by
  obtain ⟨hinputs, hdefaults⟩ := isPropertyPath_of_fault (isChecked_ofDocument hd i mapping hm)
  exact
    { translated := fun body => (dividesStops_partition mapping body).translated
      isNested_translated := fun _ _ => isNested_iff (List.forall_mem_map.2 hinputs)
      pruned := prunesStops_root mapping.defaults
      isNested_compared := fun _ _ => isNested_iff (List.forall_mem_map.2 hdefaults) }

/-- A mapping with an input and a default below one key. -/
def nestedMapping : Mapping :=
  { accountMapping with inputs := [("sku.name", "skuName")], defaults := [("sku.tier", .string "std")] }

def nestedDocument : Document := ⟨defaultSchemaVersion, [nestedMapping]⟩

theorem ofDocument_nested : ModuleCatalog.ofDocument nestedDocument = .ok (catalogOf nestedDocument) :=
  ofDocument_eq (by decide +kernel)

theorem mapping?_nested : (catalogOf nestedDocument).mapping? 0 = some nestedMapping := mapping?_eq ofDocument_nested 0

/-- A resource with both properties. -/
def nestedSource : String := "resource sa 'T/a@2020-01-01' = \x7b\n  sku: \x7b\n    name: 'x'\n    tier: 'std'\n  \x7d\n\x7d\n"

/-- An input and a default below one key: one property is translated, the other one removed. -/
theorem followsKeys_nested : ModuleCatalog.ofDocument nestedDocument = .ok (catalogOf nestedDocument) ∧
    (catalogOf nestedDocument).mapping? 0 = some nestedMapping ∧ scan nestedSource = .ok (templateOf nestedSource) ∧
    ∃ body, (templateOf nestedSource).statements[0]?.bind (·.body) = some body ∧
      (partition nestedMapping body).translated.map (·.path) = ["sku.name"] ∧
      (prune nestedMapping.defaults "saModule" "" body).removed = ["sku.tier"] ∧
      ∀ s ∈ stops (inputPaths nestedMapping) (ownProperties body), s.path = "sku.name" → s.IsNested := by
  have hf : FollowsKeys nestedMapping := followsKeys_of_ofDocument ofDocument_nested mapping?_nested
  have hbody : ((templateOf nestedSource).statements[0]?.bind (·.body)).map (fun body =>
      (((stops (inputPaths nestedMapping) (ownProperties body)).filterMap (Site.translation? nestedMapping)).map (·.path),
        ((stops (defaultPaths nestedMapping) body).filter (·.isElided nestedMapping.defaults)).map Site.path,
        (stops (inputPaths nestedMapping) (ownProperties body)).map Site.keys)) =
      some (["sku.name"], ["sku.tier"], [["sku", "name"], ["sku", "tier"]]) := by decide +kernel
  obtain ⟨body, hsome, heq⟩ := Option.map_eq_some_iff.1 hbody
  obtain ⟨htranslated, heq⟩ := Prod.mk.inj heq
  obtain ⟨hremoved, hkeys⟩ := Prod.mk.inj heq
  refine ⟨ofDocument_nested, mapping?_nested, scan_eq (by decide +kernel), body, hsome, ?_, ?_, fun s hs hpath => ?_⟩
  · rw [hf.translated, htranslated]
  · rw [(hf.pruned "saModule" body).removed]
    exact hremoved
  · refine (hf.isNested_translated body s hs (by rw [hpath]; decide)).2 ?_
    have hmem : s.keys ∈ [["sku", "name"], ["sku", "tier"]] := hkeys ▸ List.mem_map_of_mem hs
    simp only [List.mem_cons, List.not_mem_nil, or_false] at hmem
    rcases hmem with hmem | hmem <;> (rw [Site.HasPointedKey, hmem]; decide)

/-- A resource with both paths, each in one key. -/
def pointedSource : String := "resource sa 'T/a@2020-01-01' = \x7b\n  'sku.name': 'x'\n  'sku.tier': 'std'\n\x7d\n"

/-- A key that looks like a path is translated and removed like the property with this path. -/
theorem exists_pointedKey : scan pointedSource = .ok (templateOf pointedSource) ∧
    ∃ body s s', (templateOf pointedSource).statements[0]?.bind (·.body) = some body ∧
      stops (inputPaths nestedMapping) (ownProperties body) = [s, s'] ∧ ¬ s.IsNested ∧ ¬ s'.IsNested ∧
      (partition nestedMapping body).translated = [⟨"sku.name", "skuName", s.property.value⟩] ∧
      (prune nestedMapping.defaults "saModule" "" body).removed = ["sku.tier"] := by
  have hbody : ((templateOf pointedSource).statements[0]?.bind (·.body)).map (fun body =>
      ((stops (inputPaths nestedMapping) (ownProperties body)).map Site.keys,
        ((stops (defaultPaths nestedMapping) body).filter (·.isElided nestedMapping.defaults)).map Site.path)) =
      some ([["sku.name"], ["sku.tier"]], ["sku.tier"]) := by decide +kernel
  obtain ⟨body, hsome, heq⟩ := Option.map_eq_some_iff.1 hbody
  obtain ⟨hkeys, hremoved⟩ := Prod.mk.inj heq
  obtain ⟨s, rest, hstops, hs, hrest⟩ := List.map_eq_cons_iff.1 hkeys
  obtain ⟨s', rfl, hs'⟩ := List.map_eq_singleton_iff.1 hrest
  have htranslation : s.translation? nestedMapping = some ⟨"sku.name", "skuName", s.property.value⟩ := by
    rw [Site.translation?, Site.path, hs]
    rfl
  have hnone : s'.translation? nestedMapping = none := by
    rw [Site.translation?, Site.path, hs']
    rfl
  refine ⟨scan_eq (by decide +kernel), body, s, s', hsome, hstops, ?_, ?_, ?_, ?_⟩
  · rw [Site.IsNested, Site.path, hs]
    decide
  · rw [Site.IsNested, Site.path, hs']
    decide
  · have htranslated := (dividesStops_partition nestedMapping body).translated
    change _ = (stops (inputPaths nestedMapping) (ownProperties body)).filterMap _ at htranslated
    rw [htranslated, hstops, List.filterMap_cons_some htranslation, List.filterMap_cons_none hnone]
    rfl
  · rw [(prunesStops_root nestedMapping.defaults "saModule" body).removed]
    exact hremoved

end BicepMigration.Migration
