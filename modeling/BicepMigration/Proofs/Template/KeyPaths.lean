import BicepMigration.Proofs.Template.ReadBack

/-!
# Keys inside keys

A list of keys leads to a property through the objects that hold it. What is written for an object is read back with the
same keys at every depth, whatever its scalars become. Where a property stands does not matter.
-/

namespace BicepMigration.Template

/-- A property is found under keys, outermost first. -/
inductive HasKeys : ObjectLiteral → List String → Prop where
  | last {entries : ObjectLiteral} {p : Property Value} : p ∈ entries → HasKeys entries [p.key]
  | nested {entries inner : ObjectLiteral} {p : Property Value} {keys : List String} :
      p ∈ entries → p.value = .object inner → HasKeys inner keys → HasKeys entries (p.key :: keys)

/-- More properties have the same keys and others. -/
theorem HasKeys.subset {entries others : ObjectLiteral} {keys : List String} (h : HasKeys entries keys)
    (hs : ∀ p ∈ entries, p ∈ others) : HasKeys others keys := by
  cases h with
  | last hp => exact .last (hs _ hp)
  | nested hp hv hinner => exact .nested (hs _ hp) hv hinner

/-- The first key is that of a property of the object. -/
theorem HasKeys.exists_head {entries : ObjectLiteral} {keys : List String} (h : HasKeys entries keys) :
    ∃ key others, keys = key :: others ∧ key ∈ entries.map (·.key) := by
  cases h with
  | last hp => exact ⟨_, [], rfl, List.mem_map_of_mem hp⟩
  | nested hp _ _ => exact ⟨_, _, rfl, List.mem_map_of_mem hp⟩

section Places

/-- Keys stay without places. -/
theorem keys_unplaced (entries : ObjectLiteral) : entries.unplaced.map (·.key) = entries.map (·.key) := by
  rw [ObjectLiteral.unplaced, recastEntries_eq_map, List.map_map]
  rfl

/-- Only an object is one without places. -/
theorem unplaced_eq_object {v : Value} {inner : ObjectLiteral} (h : v.unplaced = .object inner) :
    ∃ entries : ObjectLiteral, v = .object entries ∧ inner = entries.unplaced := by
  cases v with
  | object entries => exact ⟨entries, rfl, (Value.object.inj h).symm⟩
  | _ => cases h

/-- Keys do not depend on places. -/
theorem hasKeys_of_unplaced {ps entries : ObjectLiteral} {keys : List String} (h : HasKeys ps keys)
    (hs : entries.unplaced = ps.unplaced) : HasKeys entries keys := by
  have hmem {ps entries : ObjectLiteral} (hs : entries.unplaced = ps.unplaced) {p : Property Value} (hp : p ∈ ps) :
      ∃ q ∈ entries, q.key = p.key ∧ q.value.unplaced = p.value.unplaced := by
    rw [ObjectLiteral.unplaced, ObjectLiteral.unplaced, recastEntries_eq_map, recastEntries_eq_map] at hs
    have hp' := List.mem_map_of_mem (f := fun p : Property Value =>
      (⟨p.key, p.quoted, p.value.recast (·.raw), 0⟩ : Property Value)) hp
    rw [← hs] at hp'
    obtain ⟨q, hq, heq⟩ := List.mem_map.1 hp'
    exact ⟨q, hq, congrArg (·.key) heq, congrArg (·.value) heq⟩
  induction h generalizing entries with
  | last hp =>
    obtain ⟨q, hq, hkey, -⟩ := hmem hs hp
    exact hkey ▸ .last hq
  | nested hp hv _ ih =>
    obtain ⟨q, hq, hkey, hvalue⟩ := hmem hs hp
    rw [hv] at hvalue
    obtain ⟨inner', hq', hinner⟩ := unplaced_eq_object hvalue
    exact hkey ▸ .nested hq hq' (ih hinner.symm)

end Places

section Reading

variable {source : String} {leaves : Leaves} {edited : EditedText} {depth : Nat} {ps entries : ObjectLiteral}

/-- Properties are read back with their keys. -/
theorem keys_of_entriesReadFrom (h : List.Forall₂ (EntryReadFrom source leaves depth) ps entries) :
    entries.map (·.key) = ps.map (·.key) := by
  induction h with
  | nil => rfl
  | cons hpq _ ih => rw [List.map_cons, List.map_cons, hpq.key, ih]

/-- A value is read back under its key. -/
theorem exists_get?_of_entriesReadFrom (h : List.Forall₂ (EntryReadFrom source leaves depth) ps entries) {key : String}
    {v : Value} (hv : ObjectLiteral.get? ps key = some v) :
    ∃ w, ObjectLiteral.get? entries key = some w ∧ ReadFrom source (leaves.value depth v) w := by
  induction h with
  | nil => cases hv
  | @cons p q ps entries hpq _ ih =>
    by_cases hk : p.key = key
    · have hq : q.key = key := hpq.key.trans hk
      have hv' : p.value = v := by simpa [ObjectLiteral.get?, hk] using hv
      exact ⟨q.value, by simp [ObjectLiteral.get?, hq], hv' ▸ hpq.value⟩
    · have hq : q.key ≠ key := hpq.key.symm ▸ hk
      obtain ⟨w, hw, hread⟩ := ih (by simpa [ObjectLiteral.get?, hk] using hv)
      exact ⟨w, by simpa [ObjectLiteral.get?, hq] using hw, hread⟩

/-- Every property is read back. -/
theorem exists_of_mem_entriesReadFrom (h : List.Forall₂ (EntryReadFrom source leaves depth) ps entries)
    {p : Property Value} (hp : p ∈ ps) : ∃ q ∈ entries, EntryReadFrom source leaves depth p q := by
  induction h with
  | nil => cases hp
  | @cons p' q' ps entries hpq _ ih =>
    rcases List.mem_cons.1 hp with rfl | hp
    · exact ⟨q', List.mem_cons_self, hpq⟩
    · obtain ⟨q, hq, hread⟩ := ih hp
      exact ⟨q, List.mem_cons_of_mem _ hq, hread⟩

/-- What is read back has the keys of what was written. -/
theorem HasKeys.readBack {keys : List String} (h : HasKeys ps keys) (hs : leaves.Show edited (.object ps))
    (hall : List.Forall₂ (EntryReadFrom source leaves depth) ps entries) : HasKeys entries keys := by
  induction h generalizing entries depth with
  | last hp =>
    obtain ⟨q, hq, hread⟩ := exists_of_mem_entriesReadFrom hall hp
    exact hread.key ▸ .last hq
  | @nested ps inner p keys hp hv _ ih =>
    obtain ⟨q, hq, hread⟩ := exists_of_mem_entriesReadFrom hall hp
    obtain ⟨here, gap, hplaced, hvalue⟩ := hread.value
    have hshow : leaves.Show edited (.object inner) := by
      cases hs with
      | object _ hshow => exact hv ▸ hshow p hp
    rw [hv] at hplaced hvalue
    obtain ⟨entries', hobject, hall'⟩ := exists_object hshow hplaced
    exact hread.key ▸ .nested hq (hvalue.symm.trans hobject) (ih hshow hall')

end Reading

end BicepMigration.Template
