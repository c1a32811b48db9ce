import BicepMigration.Proofs.Migration.PropertyPaths
import BicepMigration.Proofs.Migration.Pruned
import BicepMigration.Proofs.Template.KeyPaths

/-!
# Properties that the removal of defaults leaves

An input is taken as a whole if its value equals the default of its path, or if it is an object that is walked into and
all of its properties are taken. Everything else stays, so an object stays that loses some properties and keeps others.
Main statement: what is left has a property under some keys exactly if none of the properties that the keys lead through
is taken.
-/

namespace BicepMigration.Migration

open Catalog Template

/-- The removal of defaults takes the whole value of an input at a path: the value equals the default of the path, or it
is an object with a default below the path and with nothing in it but values that are taken. -/
inductive Taken (defaults : List (String × Json)) : String → Value → Prop where
  | equal {path : String} {default : Json} {v : Value} :
      Json.entry? defaults path = some default → v.literalEq default = some true → Taken defaults path v
  | emptied {path : String} {entries : ObjectLiteral} :
      Json.entry? defaults path = none → hasPathBelow defaults path = true → entries ≠ [] →
      (∀ p ∈ entries, Taken defaults (childPath path p.key) p.value) → Taken defaults path (.object entries)

/-- Inputs under a path have a property under keys that the removal of defaults leaves. Only objects without a default
of their own are walked into. -/
inductive Stays (defaults : List (String × Json)) : String → ObjectLiteral → List String → Prop where
  | last {parent : String} {ps : ObjectLiteral} {p : Property Value} :
      p ∈ ps → ¬ Taken defaults (childPath parent p.key) p.value → Stays defaults parent ps [p.key]
  | nested {parent : String} {ps inner : ObjectLiteral} {p : Property Value} {keys : List String} :
      p ∈ ps → ¬ Taken defaults (childPath parent p.key) p.value → p.value = .object inner → HasKeys inner keys →
      (Json.entry? defaults (childPath parent p.key) = none → hasPathBelow defaults (childPath parent p.key) = true →
        Stays defaults (childPath parent p.key) inner keys) →
      Stays defaults parent ps (p.key :: keys)

section Pruning

variable {defaults : List (String × Json)} {parent : String} {ps kept : ObjectLiteral} {removed : List String}
  {p : Property Value} {rest : ObjectLiteral} {keys : List String}

/-- Keys lead to the first property, into it, or to the others. -/
theorem hasKeys_cons_iff : HasKeys (p :: rest) keys ↔
    (keys = [p.key] ∨ ∃ inner others, keys = p.key :: others ∧ p.value = .object inner ∧ HasKeys inner others) ∨
      HasKeys rest keys := by
  constructor
  · intro h
    cases h with
    | @last _ q hq =>
      rcases List.mem_cons.1 hq with rfl | hq
      · exact .inl (.inl rfl)
      · exact .inr (.last hq)
    | @nested _ inner q others hq hv hinner =>
      rcases List.mem_cons.1 hq with rfl | hq
      · exact .inl (.inr ⟨inner, others, rfl, hv, hinner⟩)
      · exact .inr (.nested hq hv hinner)
  · rintro ((rfl | ⟨inner, others, rfl, hv, hinner⟩) | h)
    · exact .last List.mem_cons_self
    · exact .nested List.mem_cons_self hv hinner
    · exact h.subset fun _ => List.mem_cons_of_mem _

/-- What stays is the first property, something in it, or one of the others. -/
theorem stays_cons_iff : Stays defaults parent (p :: rest) keys ↔
    (¬ Taken defaults (childPath parent p.key) p.value ∧
      (keys = [p.key] ∨ ∃ inner others, keys = p.key :: others ∧ p.value = .object inner ∧ HasKeys inner others ∧
        (Json.entry? defaults (childPath parent p.key) = none → hasPathBelow defaults (childPath parent p.key) = true →
          Stays defaults (childPath parent p.key) inner others))) ∨
      Stays defaults parent rest keys := by
  constructor
  · intro h
    cases h with
    | @last _ _ q hq ht =>
      rcases List.mem_cons.1 hq with rfl | hq
      · exact .inl ⟨ht, .inl rfl⟩
      · exact .inr (.last hq ht)
    | @nested _ _ inner q others hq ht hv hinner hstays =>
      rcases List.mem_cons.1 hq with rfl | hq
      · exact .inl ⟨ht, .inr ⟨inner, others, rfl, hv, hinner, hstays⟩⟩
      · exact .inr (.nested hq ht hv hinner hstays)
  · rintro (⟨ht, rfl | ⟨inner, others, rfl, hv, hinner, hstays⟩⟩ | h)
    · exact .last List.mem_cons_self ht
    · exact .nested List.mem_cons_self ht hv hinner hstays
    · cases h with
      | last hq ht => exact .last (List.mem_cons_of_mem _ hq) ht
      | nested hq ht hv hinner hstays => exact .nested (List.mem_cons_of_mem _ hq) ht hv hinner hstays

/-- Into a property that is not walked into all keys lead that its value has. -/
theorem stays_cons_iff_of_not_entered (ht : ¬ Taken defaults (childPath parent p.key) p.value)
    (hno : ∀ inner, p.value = .object inner → Json.entry? defaults (childPath parent p.key) = none →
      hasPathBelow defaults (childPath parent p.key) = false) : Stays defaults parent (p :: rest) keys ↔
    (keys = [p.key] ∨ ∃ inner others, keys = p.key :: others ∧ p.value = .object inner ∧ HasKeys inner others) ∨
      Stays defaults parent rest keys := by
  rw [stays_cons_iff, and_iff_right ht]
  refine or_congr_left (or_congr_right (exists_congr fun inner => exists_congr fun others => ?_))
  refine and_congr_right fun _ => and_congr_right fun hv => and_iff_left fun he hb => ?_
  rw [hno inner hv he] at hb
  cases hb

/-- A property that is left was there before. -/
theorem Stays.hasKeys (h : Stays defaults parent ps keys) : HasKeys ps keys := by
  cases h with
  | last hp _ => exact .last hp
  | nested hp _ hv hinner _ => exact .nested hp hv hinner

/-- An empty object has no property under any keys. -/
theorem not_hasKeys_nil : ¬ HasKeys [] keys := by
  rintro (h | ⟨h, -, -⟩) <;> cases h

/-- Of an empty object nothing is left. -/
theorem not_stays_nil : ¬ Stays defaults parent [] keys := by
  rintro (⟨h, -⟩ | ⟨h, -, -, -, -⟩) <;> cases h

section Taken

variable {path : String} {v : Value}

/-- A value that is compared with a default is taken exactly if it equals it. -/
theorem taken_iff_of_default {default : Json} (he : Json.entry? defaults path = some default) :
    Taken defaults path v ↔ v.literalEq default = some true := by
  refine ⟨fun h => ?_, .equal he⟩
  cases h with
  | equal he' heq => rwa [Option.some.inj (he.symm.trans he')]
  | emptied he' => rw [he] at he'; cases he'

/-- A value that is passed over is not taken. -/
theorem not_taken_of_pass (he : Json.entry? defaults path = none)
    (hb : ∀ entries, v = .object entries → hasPathBelow defaults path = false) : ¬ Taken defaults path v := by
  intro h
  cases h with
  | equal he' => rw [he] at he'; cases he'
  | emptied _ hb' => rw [hb _ rfl] at hb'; cases hb'

/-- An object that is walked into is taken exactly if everything in it is taken, and there is something. -/
theorem taken_iff_of_object {entries : ObjectLiteral} (he : Json.entry? defaults path = none)
    (hb : hasPathBelow defaults path = true) : Taken defaults path (.object entries) ↔
      entries ≠ [] ∧ ∀ p ∈ entries, Taken defaults (childPath path p.key) p.value := by
  refine ⟨fun h => ?_, fun h => .emptied he hb h.1 h.2⟩
  cases h with
  | equal he' => rw [he] at he'; cases he'
  | emptied _ _ hne hall => exact ⟨hne, hall⟩

end Taken

/-- An object is not taken if something is left in it, or if nothing was removed from it. -/
theorem not_taken_of_left {path : String} {entries inner : ObjectLiteral} {gone : List String}
    (he : Json.entry? defaults path = none) (hb : hasPathBelow defaults path = true)
    (hinner : Prunes defaults path entries inner gone) (hgone : inner = [] → gone = [])
    (hnil : inner = [] ↔ ∀ p ∈ entries, Taken defaults (childPath path p.key) p.value) :
    ¬ Taken defaults path (.object entries) := by
  rw [taken_iff_of_object he hb, ← hnil]
  -- an object that is empty now without anything being removed was empty before
  exact fun htaken => htaken.1 ((hinner.kept_eq (hgone htaken.2)).symm.trans htaken.2)

/-- An object is taken if nothing is left in it and something was removed from it. -/
theorem taken_of_emptied {path : String} {entries : ObjectLiteral} {gone : List String}
    (he : Json.entry? defaults path = none) (hb : hasPathBelow defaults path = true)
    (hinner : Prunes defaults path entries [] gone) (hgone : gone ≠ [])
    (hall : ∀ p ∈ entries, Taken defaults (childPath path p.key) p.value) : Taken defaults path (.object entries) := by
  refine .emptied he hb ?_ hall
  rintro rfl
  cases hinner
  exact hgone rfl

/-- Nothing is left exactly if everything is taken. -/
theorem Prunes.kept_eq_nil_iff (h : Prunes defaults parent ps kept removed) :
    kept = [] ↔ ∀ p ∈ ps, Taken defaults (childPath parent p.key) p.value := by
  induction h with
  | done => simp
  | drop he heq _ ih => rw [List.forall_mem_cons, ← ih, taken_iff_of_default he, and_iff_right heq]
  | differ he hne _ _ =>
    refine iff_of_false (List.cons_ne_nil _ _) fun hall => ?_
    exact hne ((taken_iff_of_default he).1 (hall _ List.mem_cons_self))
  | pass he hb _ _ =>
    refine iff_of_false (List.cons_ne_nil _ _) fun hall => ?_
    exact not_taken_of_pass he hb (hall _ List.mem_cons_self)
  | enter he hv hb hinner hgone _ ih _ =>
    refine iff_of_false (List.cons_ne_nil _ _) fun hall => ?_
    exact not_taken_of_left he hb hinner hgone ih (hv ▸ hall _ List.mem_cons_self)
  | empty he hv hb hinner hgone _ ih ih' =>
    rw [List.forall_mem_cons, ← ih', hv, and_iff_right (taken_of_emptied he hb hinner hgone (ih.1 rfl))]

/-- What is left has a property under keys exactly if none that they lead through is taken. -/
theorem Prunes.hasKeys_iff (h : Prunes defaults parent ps kept removed) :
    HasKeys kept keys ↔ Stays defaults parent ps keys := by
  induction h generalizing keys with
  | done => exact iff_of_false not_hasKeys_nil not_stays_nil
  | drop he heq _ ih =>
    have htaken := (taken_iff_of_default he).2 heq
    rw [stays_cons_iff, ih, or_iff_right fun hstays => hstays.1 htaken]
  | differ he hne _ ih =>
    rw [hasKeys_cons_iff, ih, stays_cons_iff_of_not_entered (mt (taken_iff_of_default he).1 hne)]
    intro _ _ hnone
    rw [he] at hnone
    cases hnone
  | pass he hb _ ih =>
    rw [hasKeys_cons_iff, ih, stays_cons_iff_of_not_entered (not_taken_of_pass he hb) fun inner hv _ => hb inner hv]
  | @enter parent p entries inner rest kept gone removed he hv hb hinner hgone _ ih ih' =>
    have hnot := not_taken_of_left he hb hinner hgone hinner.kept_eq_nil_iff
    rw [hasKeys_cons_iff, stays_cons_iff, ih', hv, and_iff_right hnot]
    -- what is left of the object has the keys that stay in it
    have hinside (others : List String) : HasKeys inner others ↔ HasKeys entries others ∧
        (Json.entry? defaults (childPath parent p.key) = none → hasPathBelow defaults (childPath parent p.key) = true →
          Stays defaults (childPath parent p.key) entries others) := by
      rw [ih]
      exact ⟨fun hstays => ⟨hstays.hasKeys, fun _ _ => hstays⟩, fun hstays => hstays.2 he hb⟩
    refine or_congr_left (or_congr_right ⟨?_, ?_⟩)
    · rintro ⟨_, others, hkeys, hvalue, hk⟩
      obtain rfl := Value.object.inj hvalue
      exact ⟨entries, others, hkeys, rfl, (hinside others).1 hk⟩
    · rintro ⟨_, others, hkeys, hvalue, hk⟩
      obtain rfl := Value.object.inj hvalue
      exact ⟨inner, others, hkeys, rfl, (hinside others).2 hk⟩
  | empty he hv hb hinner hgone _ ih ih' =>
    have htaken := taken_of_emptied he hb hinner hgone (hinner.kept_eq_nil_iff.1 rfl)
    rw [stays_cons_iff, ih', hv, or_iff_right fun hstays => hstays.1 htaken]

/-- What is removed under a path lies below it. -/
theorem Prunes.prefix_of_mem (h : Prunes defaults parent ps kept removed) (hp : parent ≠ "") {path : String}
    (hr : path ∈ removed) : (parent ++ ".").toList <+: path.toList := by
  induction h with
  | done => cases hr
  | drop _ _ _ ih =>
    rcases List.mem_cons.1 hr with rfl | hr
    · rw [toList_childPath hp]
      exact List.prefix_append _ _
    · exact ih hp hr
  | differ _ _ _ ih => exact ih hp hr
  | pass _ _ _ ih => exact ih hp hr
  | enter _ _ _ _ _ _ ih ih' | empty _ _ _ _ _ _ ih ih' =>
    rcases List.mem_append.1 hr with hr | hr
    · exact prefix_of_prefix_child hp (ih (childPath_ne_empty hp _) hr)
    · exact ih' hp hr

/-- A property stays if nothing is removed at its path, above it or below it. -/
theorem Prunes.hasKeys (h : Prunes defaults parent ps kept removed) (hd : ∀ d ∈ defaults, isPropertyPath d.1 = true)
    (hk : HasKeys ps keys)
    (hr : ∀ path ∈ removed, ¬ PathWithin (keys.foldl childPath parent) path ∧
      ¬ PathWithin path (keys.foldl childPath parent)) : HasKeys kept keys := by
  -- paths at which something can be removed are not empty
  have hbelow {path : String} (hb : hasPathBelow defaults path = true) : path ≠ "" := by
    rintro rfl
    obtain ⟨d, hmem, hprefix⟩ := List.any_eq_true.1 hb
    exact head_ne_point_of_isPropertyPath (hd d hmem) (List.isPrefixOf_iff_prefix.1 hprefix)
  induction h generalizing keys with
  | done => exact hk
  | @drop parent p rest kept removed default he _ _ ih =>
    rcases hasKeys_cons_iff.1 hk with hp | hk
    · have hmem := mem_of_entry? he
      have hne := ne_empty_of_isPropertyPath (hd _ hmem)
      refine absurd ?_ (hr _ List.mem_cons_self).1
      rcases hp with rfl | ⟨inner, others, rfl, -, -⟩
      · exact .inl rfl
      · exact pathWithin_foldl hne others
    · exact ih hk fun path hmem => hr path (List.mem_cons_of_mem _ hmem)
  | @differ parent p rest kept removed default he _ _ ih | @pass parent p rest kept removed he _ _ ih =>
    rcases hasKeys_cons_iff.1 hk with (rfl | ⟨inner, others, rfl, hv, hinner⟩) | hk
    · exact .last List.mem_cons_self
    · exact .nested List.mem_cons_self hv hinner
    · exact (ih hk hr).subset fun _ => List.mem_cons_of_mem _
  | @enter parent p entries inner rest kept gone removed _ hv _ _ _ _ ih ih' =>
    rcases hasKeys_cons_iff.1 hk with (rfl | ⟨inner', others, rfl, hv', hinner⟩) | hk
    · exact @HasKeys.last _ { p with value := .object inner } List.mem_cons_self
    · obtain rfl := Value.object.inj (hv.symm.trans hv')
      exact @HasKeys.nested _ _ { p with value := .object inner } _ List.mem_cons_self rfl
        (ih hinner fun path hmem => hr path (List.mem_append_left _ hmem))
    · exact (ih' hk fun path hmem => hr path (List.mem_append_right _ hmem)).subset fun _ => List.mem_cons_of_mem _
  | @empty parent p entries rest kept gone removed _ hv hb hinner hgone _ ih ih' =>
    rcases hasKeys_cons_iff.1 hk with (rfl | ⟨inner', others, rfl, hv', hk⟩) | hk
    · obtain ⟨path, hmem⟩ := List.exists_mem_of_ne_nil gone hgone
      exact absurd (.inr (hinner.prefix_of_mem (hbelow hb) hmem)) (hr path (List.mem_append_left _ hmem)).2
    · obtain rfl := Value.object.inj (hv.symm.trans hv')
      exact absurd (ih hk fun path hmem => hr path (List.mem_append_left _ hmem)) not_hasKeys_nil
    · exact ih' hk fun path hmem => hr path (List.mem_append_right _ hmem)

end Pruning

end BicepMigration.Migration
