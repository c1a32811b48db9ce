import BicepMigration.Migration.Elision
import BicepMigration.Proofs.Migration.Divided
import BicepMigration.Proofs.Template.Unplaced

/-!
# What pruning leaves

Pruning walks over inputs and compares those that have a default with it. What equals its default is removed, and so
is an object that this empties; everything else stays, in order. A default of an object hides the defaults below it.
What is left holds nothing that equals its default, so pruning it again removes nothing. Whether a value that compares
equal also means the same is not spoken about here.
-/

namespace BicepMigration.Migration

open Catalog Template

/-- An input that is compared with its default. -/
structure Comparison where
  /-- The path of the input. -/
  path : String
  default : Json
  value : Value

/-- The input equals its default. -/
def Comparison.holds (c : Comparison) : Bool := c.value.literalEq c.default = some true

/-- The comparisons that a walk over inputs under a path makes, in order. An input with a default is compared as a
whole. Without one the walk goes into an object if a default lies below its path. -/
def comparisons (defaults : List (String × Json)) (parent : String) : List (Property Value) → List Comparison
  | [] => []
  | ⟨key, _, value, _⟩ :: rest =>
    let path := childPath parent key
    let first :=
      match Json.entry? defaults path, value with
      | some default, value => [⟨path, default, value⟩]
      | none, .object entries => if hasPathBelow defaults path then comparisons defaults path entries else []
      | none, _ => []
    first ++ comparisons defaults parent rest

variable {defaults : List (String × Json)}

section Equations

variable {parent : String} {p : Property Value} {default : Json}

/-- An input with a default is compared with it. -/
theorem prune_of_default (h : Json.entry? defaults (childPath parent p.key) = some default) (module : String)
    (rest : ObjectLiteral) : prune defaults module parent (p :: rest) =
      (pruneAgainst module (childPath parent p.key) default p).append (prune defaults module parent rest) := by
  rw [prune.eq_def]
  simp only [h]

/-- An object with defaults below its path is walked into. -/
theorem prune_of_object (h : Json.entry? defaults (childPath parent p.key) = none) {entries : ObjectLiteral}
    (hv : p.value = .object entries) (hb : hasPathBelow defaults (childPath parent p.key) = true) (module : String)
    (rest : ObjectLiteral) : prune defaults module parent (p :: rest) =
      (Pruning.enclose p.key p.quoted p.line (prune defaults module (childPath parent p.key) entries)).append
        (prune defaults module parent rest) := by
  rw [prune.eq_def]
  simp only [h, hv, hb, if_true]

/-- Another input is kept. -/
theorem prune_of_pass (h : Json.entry? defaults (childPath parent p.key) = none)
    (hb : ∀ entries, p.value = .object entries → hasPathBelow defaults (childPath parent p.key) = false)
    (module : String) (rest : ObjectLiteral) :
    prune defaults module parent (p :: rest) = (Pruning.keep p).append (prune defaults module parent rest) := by
  obtain ⟨key, quoted, value, line⟩ := p
  rw [prune.eq_def]
  simp only at h hb
  simp only [h]
  cases value with
  | object entries => simp only [hb entries rfl, Bool.false_eq_true, if_false]
  | _ => rfl

/-- An input with a default makes one comparison. -/
theorem comparisons_of_default (h : Json.entry? defaults (childPath parent p.key) = some default)
    (rest : ObjectLiteral) : comparisons defaults parent (p :: rest) =
      ⟨childPath parent p.key, default, p.value⟩ :: comparisons defaults parent rest := by
  rw [comparisons.eq_def]
  simp only [h]
  rfl

/-- An object with defaults below its path makes the comparisons of its properties. -/
theorem comparisons_of_object (h : Json.entry? defaults (childPath parent p.key) = none) {entries : ObjectLiteral}
    (hv : p.value = .object entries) (hb : hasPathBelow defaults (childPath parent p.key) = true)
    (rest : ObjectLiteral) : comparisons defaults parent (p :: rest) =
      comparisons defaults (childPath parent p.key) entries ++ comparisons defaults parent rest := by
  rw [comparisons.eq_def]
  simp only [h, hv, hb, if_true]

/-- Another input makes no comparison. -/
theorem comparisons_of_pass (h : Json.entry? defaults (childPath parent p.key) = none)
    (hb : ∀ entries, p.value = .object entries → hasPathBelow defaults (childPath parent p.key) = false)
    (rest : ObjectLiteral) : comparisons defaults parent (p :: rest) = comparisons defaults parent rest := by
  obtain ⟨key, quoted, value, line⟩ := p
  rw [comparisons.eq_def]
  simp only at h hb
  simp only [h]
  cases value with
  | object entries => simp only [hb entries rfl, Bool.false_eq_true, if_false, List.nil_append]
  | _ => rfl

end Equations

/-- Inputs under a path, those that are left of them, and the paths of those that were removed, in order. -/
inductive Prunes (defaults : List (String × Json)) : String → ObjectLiteral → ObjectLiteral → List String → Prop where
  | done {parent : String} : Prunes defaults parent [] [] []
  /-- An input that equals its default goes. -/
  | drop {parent : String} {p : Property Value} {rest kept : ObjectLiteral} {removed : List String} {default : Json} :
      Json.entry? defaults (childPath parent p.key) = some default → p.value.literalEq default = some true →
      Prunes defaults parent rest kept removed →
      Prunes defaults parent (p :: rest) kept (childPath parent p.key :: removed)
  /-- An input with another value than its default stays as it is. -/
  | differ {parent : String} {p : Property Value} {rest kept : ObjectLiteral} {removed : List String} {default : Json} :
      Json.entry? defaults (childPath parent p.key) = some default → p.value.literalEq default ≠ some true →
      Prunes defaults parent rest kept removed → Prunes defaults parent (p :: rest) (p :: kept) removed
  /-- An input with no default, and with none below its path unless it is no object, stays as it is. -/
  | pass {parent : String} {p : Property Value} {rest kept : ObjectLiteral} {removed : List String} :
      Json.entry? defaults (childPath parent p.key) = none →
      (∀ entries, p.value = .object entries → hasPathBelow defaults (childPath parent p.key) = false) →
      Prunes defaults parent rest kept removed → Prunes defaults parent (p :: rest) (p :: kept) removed
  /-- An object with defaults below its path stays with what is left in it. -/
  | enter {parent : String} {p : Property Value} {entries inner rest kept : ObjectLiteral}
      {gone removed : List String} :
      Json.entry? defaults (childPath parent p.key) = none → p.value = .object entries →
      hasPathBelow defaults (childPath parent p.key) = true →
      Prunes defaults (childPath parent p.key) entries inner gone → (inner = [] → gone = []) →
      Prunes defaults parent rest kept removed →
      Prunes defaults parent (p :: rest) ({ p with value := .object inner } :: kept) (gone ++ removed)
  /-- An object that is emptied goes. -/
  | empty {parent : String} {p : Property Value} {entries rest kept : ObjectLiteral} {gone removed : List String} :
      Json.entry? defaults (childPath parent p.key) = none → p.value = .object entries →
      hasPathBelow defaults (childPath parent p.key) = true →
      Prunes defaults (childPath parent p.key) entries [] gone → gone ≠ [] →
      Prunes defaults parent rest kept removed → Prunes defaults parent (p :: rest) kept (gone ++ removed)

/-- Pruning leaves what is left. -/
theorem prunes_prune (module parent : String) (ps : List (Property Value)) :
    Prunes defaults parent ps (prune defaults module parent ps).kept (prune defaults module parent ps).removed := by
  induction parent, ps using walk_induction defaults with
  | done parent =>
    rw [prune]
    exact .done
  | found parent p rest default he ih =>
    rw [prune_of_default he, pruneAgainst]
    cases heq : p.value.literalEq default with
    | none => exact .differ he (by simp [heq]) ih
    | some equal =>
      cases equal with
      | true => exact .drop he heq ih
      | false => exact .differ he (by simp [heq]) ih
  | enter parent p entries rest he hv hb ih ih' =>
    rw [prune_of_object he hv hb, Pruning.append, Pruning.enclose]
    split
    · next hempty =>
      simp only [Bool.and_eq_true, List.isEmpty_iff, Bool.not_eq_true', List.isEmpty_eq_false_iff] at hempty
      rw [hempty.1] at ih
      exact .empty he hv hb ih hempty.2 ih'
    · next hempty =>
      simp only [Bool.and_eq_true, List.isEmpty_iff, Bool.not_eq_true', List.isEmpty_eq_false_iff, not_and,
        Decidable.not_not] at hempty
      exact .enter he hv hb ih hempty ih'
  | pass parent p rest he hb ih =>
    rw [prune_of_pass he hb]
    exact .pass he hb ih

section Walk

variable {parent : String} {ps kept : ObjectLiteral} {removed : List String}

/-- What is removed is what equals its default, in the order of the walk. -/
theorem Prunes.removed_eq (h : Prunes defaults parent ps kept removed) :
    removed = ((comparisons defaults parent ps).filter Comparison.holds).map (·.path) := by
  induction h with
  | done => simp [comparisons]
  | drop he heq _ ih => simp [comparisons_of_default he, Comparison.holds, heq, ih]
  | differ he hne _ ih => simp [comparisons_of_default he, Comparison.holds, hne, ih]
  | pass he hb _ ih => rw [comparisons_of_pass he hb, ih]
  | enter he hv hb _ _ _ ih ih' => rw [comparisons_of_object he hv hb, List.filter_append, List.map_append, ih, ih']
  | empty he hv hb _ _ _ ih ih' => rw [comparisons_of_object he hv hb, List.filter_append, List.map_append, ih, ih']

/-- A walk over what is left makes the comparisons that did not hold. -/
theorem Prunes.comparisons_eq (h : Prunes defaults parent ps kept removed) :
    comparisons defaults parent kept = (comparisons defaults parent ps).filter fun c => !c.holds := by
  induction h with
  | done => simp [comparisons]
  | drop he heq _ ih => simp [comparisons_of_default he, Comparison.holds, heq, ih]
  | differ he hne _ ih => simp [comparisons_of_default he, Comparison.holds, hne, ih]
  | pass he hb _ ih => rw [comparisons_of_pass he hb, comparisons_of_pass he hb, ih]
  | @enter parent p entries inner rest kept gone removed he hv hb _ _ _ ih ih' =>
    have hinner := @comparisons_of_object _ _ { p with value := .object inner } he _ rfl hb kept
    rw [comparisons_of_object he hv hb, hinner, List.filter_append, ih, ih']
  | empty he hv hb _ _ _ ih ih' =>
    rw [comparisons_of_object he hv hb, List.filter_append, ← ih, ih', comparisons, List.nil_append]

/-- What is left holds nothing that equals its default. -/
theorem Prunes.not_holds (h : Prunes defaults parent ps kept removed) :
    ∀ c ∈ comparisons defaults parent kept, c.holds = false := by
  rw [h.comparisons_eq]
  intro c hc
  simpa using (List.mem_filter.1 hc).2

/-- Where nothing is removed everything stays. -/
theorem Prunes.kept_eq (h : Prunes defaults parent ps kept removed) (hr : removed = []) : kept = ps := by
  induction h with
  | done => rfl
  | drop => cases hr
  | differ _ _ _ ih => rw [ih hr]
  | pass _ _ _ ih => rw [ih hr]
  | enter _ hv _ _ _ _ ih ih' =>
    obtain ⟨hgone, hremoved⟩ := List.append_eq_nil_iff.1 hr
    rw [ih hgone, ih' hremoved, ← hv]
  | empty _ _ _ _ hgone _ _ _ => exact absurd (List.append_eq_nil_iff.1 hr).1 hgone

end Walk

/-- A property without its place. -/
def unplacedProperty (p : Property Value) : Property Value := ⟨p.key, p.quoted, p.value.unplaced, 0⟩

theorem key_unplacedProperty (p : Property Value) : (unplacedProperty p).key = p.key := rfl

theorem unplaced_cons (p : Property Value) (rest : ObjectLiteral) :
    ObjectLiteral.unplaced (p :: rest) = unplacedProperty p :: ObjectLiteral.unplaced rest := rfl

/-- The comparison without the place of the value. -/
def Comparison.unplaced (c : Comparison) : Comparison := { c with value := c.value.unplaced }

/-- A comparison does not depend on places. -/
theorem Comparison.holds_unplaced (c : Comparison) : c.unplaced.holds = c.holds := by
  simp only [holds, unplaced, literalEq_unplaced]

/-- The walk does not depend on places. -/
theorem comparisons_unplaced (parent : String) (ps : List (Property Value)) :
    comparisons defaults parent (ObjectLiteral.unplaced ps) =
      (comparisons defaults parent ps).map Comparison.unplaced := by
  induction parent, ps using walk_induction defaults with
  | done parent => simp [ObjectLiteral.unplaced, Value.recastEntries, comparisons]
  | found parent p rest default he ih =>
    rw [unplaced_cons, comparisons_of_default (p := unplacedProperty p) he, comparisons_of_default he, ih]
    rfl
  | enter parent p entries rest he hv hb ih ih' =>
    have hobject : p.value.unplaced = .object (ObjectLiteral.unplaced entries) := by rw [hv]; rfl
    rw [unplaced_cons, comparisons_of_object he hv hb, comparisons_of_object (p := unplacedProperty p) he hobject hb,
      key_unplacedProperty, ih, ih', List.map_append]
  | pass parent p rest he hb ih =>
    have hno : ∀ entries, p.value.unplaced = .object entries → hasPathBelow defaults (childPath parent p.key) = false := by
      intro entries hobject
      cases hv : p.value with
      | object entries' => exact hb entries' hv
      | _ => rw [hv] at hobject; cases hobject
    rw [unplaced_cons, comparisons_of_pass he hb, comparisons_of_pass (p := unplacedProperty p) he hno, ih]

/-- What equals its default does so in any place. -/
theorem not_holds_of_unplaced {parent : String} {ps qs : ObjectLiteral} (h : qs.unplaced = ps.unplaced)
    (hps : ∀ c ∈ comparisons defaults parent ps, c.holds = false) :
    ∀ c ∈ comparisons defaults parent qs, c.holds = false := by
  intro c hc
  have hmem : c.unplaced ∈ (comparisons defaults parent ps).map Comparison.unplaced := by
    rw [← comparisons_unplaced, ← h, comparisons_unplaced]
    exact List.mem_map_of_mem hc
  obtain ⟨d, hd, hsame⟩ := List.mem_map.1 hmem
  rw [← c.holds_unplaced, ← hsame, d.holds_unplaced]
  exact hps d hd

/-- What is removed does not depend on places. -/
theorem removed_eq_of_unplaced {module parent : String} {ps qs : ObjectLiteral} (h : qs.unplaced = ps.unplaced) :
    (prune defaults module parent qs).removed = (prune defaults module parent ps).removed := by
  have hmap (ps : ObjectLiteral) : (prune defaults module parent ps).removed =
      ((comparisons defaults parent ps.unplaced).filter Comparison.holds).map (·.path) := by
    have hholds : Comparison.holds ∘ Comparison.unplaced = Comparison.holds := funext Comparison.holds_unplaced
    rw [(prunes_prune module parent ps).removed_eq, comparisons_unplaced, List.filter_map, hholds, List.map_map]
    rfl
  rw [hmap, hmap, h]

section Params

variable {key : String} {value : Value}

/-- A value that is put in place of another one is found under its key. -/
theorem get?_replaceFirst (value : Value) {entries : ObjectLiteral} {old : Value}
    (h : ObjectLiteral.get? entries key = some old) :
    ObjectLiteral.get? (replaceFirst key value entries) key = some value := by
  induction entries with
  | nil => cases h
  | cons p rest ih =>
    rw [replaceFirst]
    split
    · next hk => simp [ObjectLiteral.get?, hk]
    · next hk =>
      rw [ObjectLiteral.get?, List.find?_cons_of_neg (by simpa using hk)] at h ⊢
      exact ih h

/-- Putting a value in its own place changes nothing. -/
theorem replaceFirst_eq_self {entries : ObjectLiteral} (h : ObjectLiteral.get? entries key = some value) :
    replaceFirst key value entries = entries := by
  induction entries with
  | nil => rfl
  | cons p rest ih =>
    rw [replaceFirst]
    split
    · next hk =>
      rw [ObjectLiteral.get?, List.find?_cons_of_pos (by simpa using hk)] at h
      rw [← Option.some.inj h]
    · next hk =>
      rw [ObjectLiteral.get?, List.find?_cons_of_neg (by simpa using hk)] at h
      rw [ih h]

/-- The inputs of a call are the object under `params` in its body. -/
theorem paramsOf?_eq_some {s : Statement} {body params : ObjectLiteral} :
    paramsOf? s = some (body, params) ↔
      s.body = some body ∧ ObjectLiteral.get? body "params" = some (.object params) := by
  constructor
  · intro h
    obtain ⟨body', hbody, h⟩ := Option.bind_eq_some_iff.1 h
    split at h
    · next hget =>
      obtain ⟨rfl, rfl⟩ : body' = body ∧ _ = params := by simpa using h
      exact ⟨hbody, hget⟩
    · cases h
  · rintro ⟨hbody, hget⟩
    simp [paramsOf?, hbody, hget]

/-- A body that is the same apart from places has inputs that are the same apart from places. -/
theorem exists_params {s : Statement} {body params : ObjectLiteral}
    (hs : s.body.map ObjectLiteral.unplaced = some body.unplaced)
    (hp : ObjectLiteral.get? body "params" = some (.object params)) :
    ∃ body' params', paramsOf? s = some (body', params') ∧ body'.unplaced = body.unplaced ∧
      params'.unplaced = params.unplaced := by
  obtain ⟨body', hbody, hsame⟩ := Option.map_eq_some_iff.1 hs
  have hget : (ObjectLiteral.get? body' "params").map Value.unplaced = some (.object params.unplaced) := by
    rw [← get?_recastEntries, show Value.recastEntries (·.raw) body' = body.unplaced from hsame, get?_recastEntries, hp]
    rfl
  obtain ⟨value, hvalue, hunplaced⟩ := Option.map_eq_some_iff.1 hget
  cases value with
  | object params' =>
    exact ⟨body', params', paramsOf?_eq_some.2 ⟨hbody, hvalue⟩, hsame, Value.object.inj hunplaced⟩
  | _ => cases hunplaced

end Params

/-- Pruning what is left removes nothing. -/
theorem removed_prune_kept (module parent : String) (ps : ObjectLiteral) :
    (prune defaults module parent (prune defaults module parent ps).kept).removed = [] := by
  rw [(prunes_prune module parent _).removed_eq, List.map_eq_nil_iff, List.filter_eq_nil_iff]
  intro c hc
  simp [(prunes_prune module parent ps).not_holds c hc]

end BicepMigration.Migration
