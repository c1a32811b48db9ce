import Mathlib.Data.List.Nodup
import BicepMigration.Proofs.Migration.Bodies
import BicepMigration.Proofs.Migration.Divided
import BicepMigration.Proofs.Migration.Pruned
import BicepMigration.Proofs.Template.LiteralUse

/-!
# What is used in bodies

The scalars of a resource go to the module call, and pruning removes literals only. So what is used in the body of a
resource is used in that of its module call and in what is left of it. Two things are lost: a property that belongs to
the module call itself is taken once only, and the name of the deployment is added.
-/

namespace BicepMigration.Migration

open Catalog Template

variable {leaf : Side → Value → Prop}

/-- A scalar in a value of properties has a property. -/
def AnyEntry (leaf : Side → Value → Prop) (ps : ObjectLiteral) : Prop := ∃ p ∈ ps, p.value.Any leaf .other

@[simp] theorem anyEntry_nil : AnyEntry leaf [] ↔ False := by simp [AnyEntry]

@[simp] theorem anyEntry_cons {p : Property Value} {ps : ObjectLiteral} :
    AnyEntry leaf (p :: ps) ↔ p.value.Any leaf .other ∨ AnyEntry leaf ps := by simp [AnyEntry]

@[simp] theorem anyEntry_append {a b : ObjectLiteral} : AnyEntry leaf (a ++ b) ↔ AnyEntry leaf a ∨ AnyEntry leaf b := by
  simp [AnyEntry, or_and_right, exists_or]

/-- A leaf of some properties is one of all of them. -/
theorem AnyEntry.mono {a b : ObjectLiteral} (h : AnyEntry leaf a) (hs : a ⊆ b) : AnyEntry leaf b :=
  let ⟨p, hp, ha⟩ := h
  ⟨p, hs hp, ha⟩

/-- What is used in properties is used in the inputs that they become or in what stays. -/
theorem Divides.any_iff {mapping : Mapping} {parent : String} {ps : ObjectLiteral} {d : Division}
    (h : Divides mapping parent ps d) :
    (∃ t ∈ d.translated, t.value.Any leaf .other) ∨ AnyEntry leaf d.residual ↔ AnyEntry leaf ps := by
  induction h with
  | done => simp [Division.empty]
  | translate _ _ ih =>
    simp only [Division.append, Division.translate, List.nil_append, List.cons_append, List.mem_cons,
      exists_eq_or_imp, anyEntry_cons, ← ih, or_assoc]
  | @enter parent p entries rest inner others _ hv _ _ _ ih ih' =>
    have hinner : AnyEntry leaf (Division.enclose p.key p.quoted p.line inner).residual ↔ AnyEntry leaf inner.residual := by
      cases hr : inner.residual <;> simp [Division.enclose, hr, any_object_iff, AnyEntry]
    rw [anyEntry_cons, hv, any_object_iff, ← AnyEntry, ← ih, ← ih', Division.append, anyEntry_append, hinner]
    simp only [Division.enclose, List.mem_append, or_and_right, exists_or]
    exact or_or_or_comm
  | keep _ _ _ ih =>
    simp only [Division.append, Division.keep, List.nil_append, List.cons_append, anyEntry_cons, ← ih]
    exact or_left_comm

/-- What is used in the inputs of a module is used in properties that do not belong to the module call. -/
theorem anyEntry_moduleParams_iff (mapping : Mapping) (body : ObjectLiteral) :
    AnyEntry leaf (moduleParams (partition mapping body)) ↔
      AnyEntry leaf (body.filter fun p => !hoistedKeys.contains p.key) := by
  rw [← (divides_partition mapping body).any_iff, moduleParams, anyEntry_append]
  simp [AnyEntry, Property.plain]

/-- A leaf of a module body is the name, or it stands in the scope, in the inputs or in the dependencies. -/
theorem anyEntry_moduleBody_iff {newSymbol : String} {parts : Partition} :
    AnyEntry leaf (moduleBody newSymbol parts) ↔ leaf .other (.string ⟨quote newSymbol, none⟩) ∨
      AnyEntry leaf (parts.hoisted? "scope").toList ∨ AnyEntry leaf (moduleParams parts) ∨
        AnyEntry leaf (parts.hoisted? "dependsOn").toList := by
  rw [moduleBody, List.cons_append, anyEntry_cons, anyEntry_append, anyEntry_cons, Property.plain, any_scalar_iff rfl,
    Property.plain, any_object_iff]
  rfl

/-- What is used in the body of a module call is its own name or is used in the body of the resource. -/
theorem anyEntry_of_moduleBody {mapping : Mapping} {body : ObjectLiteral} {newSymbol : String}
    (h : AnyEntry leaf (moduleBody newSymbol (partition mapping body))) :
    leaf .other (.string ⟨quote newSymbol, none⟩) ∨ AnyEntry leaf body := by
  have hhoisted {key : String} : ((partition mapping body).hoisted? key).toList ⊆ body := fun p hp =>
    (List.mem_filter.1 (List.mem_of_find?_eq_some (Option.mem_toList.1 hp))).1
  rw [anyEntry_moduleBody_iff, anyEntry_moduleParams_iff] at h
  rcases h with h | h | h | h
  · exact .inl h
  · exact .inr (h.mono hhoisted)
  · exact .inr (h.mono fun p hp => (List.mem_filter.1 hp).1)
  · exact .inr (h.mono hhoisted)

/-- The properties of a body that belong to the module call itself. -/
def hoistedOf (body : ObjectLiteral) : ObjectLiteral := body.filter fun p => hoistedKeys.contains p.key

/-- A property that belongs to the module call is the one that is taken, if its key is not repeated. -/
theorem hoisted?_of_mem (mapping : Mapping) {body : ObjectLiteral} (hn : ((hoistedOf body).map (·.key)).Nodup)
    {p : Property Value} (hp : p ∈ hoistedOf body) : (partition mapping body).hoisted? p.key = some p := by
  have hfind : ((hoistedOf body).find? (·.key = p.key)).isSome := by
    rw [List.find?_isSome]
    exact ⟨p, hp, by simp⟩
  obtain ⟨q, hq⟩ := Option.isSome_iff_exists.1 hfind
  have hkey : q.key = p.key := by simpa using List.find?_some hq
  obtain rfl := List.inj_on_of_nodup_map hn (List.mem_of_find?_eq_some hq) hp hkey
  exact hq

/-- What is used in the body of a resource is used in that of its module call, if no property that belongs to the module
call is repeated. -/
theorem anyEntry_moduleBody {mapping : Mapping} {body : ObjectLiteral} (newSymbol : String)
    (hn : ((hoistedOf body).map (·.key)).Nodup) (h : AnyEntry leaf body) :
    AnyEntry leaf (moduleBody newSymbol (partition mapping body)) := by
  obtain ⟨p, hp, ha⟩ := h
  rw [anyEntry_moduleBody_iff, anyEntry_moduleParams_iff]
  by_cases hk : hoistedKeys.contains p.key = true
  · have hfind := hoisted?_of_mem mapping hn (List.mem_filter.2 ⟨hp, hk⟩)
    have hkeys : p.key = "dependsOn" ∨ p.key = "scope" := by simpa [hoistedKeys] using hk
    rcases hkeys with hkey | hkey
    · rw [hkey] at hfind
      exact .inr (.inr (.inr ⟨p, by simp [hfind], ha⟩))
    · rw [hkey] at hfind
      exact .inr (.inl ⟨p, by simp [hfind], ha⟩)
  · exact .inr (.inr (.inl ⟨p, List.mem_filter.2 ⟨hp, by simpa using hk⟩, ha⟩))

variable {defaults : List (String × Json)} {parent : String} {ps kept : ObjectLiteral} {removed : List String}

/-- What is used in what is left was used before. -/
theorem Prunes.anyEntry_of_kept (h : Prunes defaults parent ps kept removed) (ha : AnyEntry leaf kept) :
    AnyEntry leaf ps := by
  induction h with
  | done => exact ha
  | drop _ _ _ ih => exact anyEntry_cons.2 (.inr (ih ha))
  | differ _ _ _ ih | pass _ _ _ ih => exact anyEntry_cons.2 ((anyEntry_cons.1 ha).imp_right ih)
  | enter _ hv _ _ _ _ ih ih' =>
    refine anyEntry_cons.2 ((anyEntry_cons.1 ha).imp (fun ha => ?_) ih')
    rw [hv, any_object_iff]
    exact ih (any_object_iff.1 ha)
  | empty _ _ _ _ _ _ _ ih' => exact anyEntry_cons.2 (.inr (ih' ha))

/-- What was used before is used in what is left, if literals use nothing. -/
theorem Prunes.anyEntry_kept (h : Prunes defaults parent ps kept removed)
    (he : ∀ p ∈ ps, p.value.Every fun w => w.isLiteral = true → ∀ side, ¬ leaf side w) (ha : AnyEntry leaf ps) :
    AnyEntry leaf kept := by
  induction h with
  | done => exact ha
  | @drop parent p rest kept removed default _ heq _ ih =>
    obtain ⟨hp, hrest⟩ := List.forall_mem_cons.1 he
    refine ih hrest ((anyEntry_cons.1 ha).resolve_left ?_)
    exact not_any_of_isLiteral hp (isLiteral_of_literalEq _ heq)
  | differ _ _ _ ih | pass _ _ _ ih =>
    exact anyEntry_cons.2 ((anyEntry_cons.1 ha).imp_right (ih (List.forall_mem_cons.1 he).2))
  | enter _ hv _ _ _ _ ih ih' =>
    obtain ⟨hp, hrest⟩ := List.forall_mem_cons.1 he
    rw [hv] at hp
    refine anyEntry_cons.2 ((anyEntry_cons.1 ha).imp (fun ha => ?_) (ih' hrest))
    rw [hv, any_object_iff] at ha
    exact any_object_iff.2 (ih (fun q hq => (every_object_iff.1 hp q hq).2) ha)
  | empty _ hv _ _ _ _ ih ih' =>
    obtain ⟨hp, hrest⟩ := List.forall_mem_cons.1 he
    rw [hv] at hp
    refine ih' hrest ((anyEntry_cons.1 ha).resolve_left fun ha => ?_)
    rw [hv, any_object_iff] at ha
    exact anyEntry_nil.1 (ih (fun q hq => (every_object_iff.1 hp q hq).2) ha)

section Params

variable {key : String} {value : Value} {entries : ObjectLiteral}

/-- What is used after the first value with a key is exchanged is used in the new value or was used before. -/
theorem anyEntry_of_replaceFirst (h : AnyEntry leaf (replaceFirst key value entries)) :
    value.Any leaf .other ∨ AnyEntry leaf entries := by
  induction entries with
  | nil => exact h.elim fun p hp => by simp [replaceFirst] at hp
  | cons p rest ih =>
    rw [replaceFirst] at h
    rw [anyEntry_cons]
    split at h
    · exact (anyEntry_cons.1 h).imp id .inr
    · exact (anyEntry_cons.1 h).elim (fun h => .inr (.inl h)) fun h => (ih h).imp_right .inr

/-- What was used before the first value with a key is exchanged is used after, if it is in the new value. -/
theorem anyEntry_replaceFirst {old : Value} (hget : ObjectLiteral.get? entries key = some old)
    (hv : old.Any leaf .other → value.Any leaf .other) (h : AnyEntry leaf entries) :
    AnyEntry leaf (replaceFirst key value entries) := by
  induction entries with
  | nil => cases hget
  | cons p rest ih =>
    rw [replaceFirst]
    rw [ObjectLiteral.get?] at hget
    split
    · next hk =>
      rw [List.find?_cons_of_pos (by simpa using hk)] at hget
      obtain rfl := Option.some.inj hget
      exact anyEntry_cons.2 ((anyEntry_cons.1 h).imp_left hv)
    · next hk =>
      rw [List.find?_cons_of_neg (by simpa using hk)] at hget
      exact anyEntry_cons.2 ((anyEntry_cons.1 h).imp_right (ih hget))

end Params

end BicepMigration.Migration
