import BicepMigration.Proofs.Migration.DividedStops
import BicepMigration.Proofs.Migration.Pruned

/-!
# Keys and paths

The removal of defaults compares the inputs at the stops of a walk by the paths of the defaults. So what is translated
and what is removed are known with the keys that lead there. A walk compares paths and not keys: they are the same way
down exactly where no key has a point in it.
-/

namespace BicepMigration.Migration

open Catalog Template

/-- The comparison of an input with its default, if it has one. -/
def Site.comparison? (defaults : List (String × Json)) (s : Site) : Option Comparison :=
  (Json.entry? defaults s.path).map fun default => ⟨s.path, default, s.property.value⟩

/-- The input equals its default. -/
def Site.isElided (defaults : List (String × Json)) (s : Site) : Bool := (s.comparison? defaults).any Comparison.holds

/-- The notice for an input that cannot be compared with its default. -/
def Site.notice? (defaults : List (String × Json)) (module : String) (s : Site) : Option Diagnostic :=
  (s.comparison? defaults).bind fun c =>
    if c.value.literalEq c.default = none then some (skippedNotice module c.path s.property.line) else none

/-- Inputs under keys are pruned at the stops of the walk. -/
structure PrunesStops (defaults : List (String × Json)) (module : String) (above : List String) (ps : ObjectLiteral)
    (pruned : Pruning) : Prop where
  removed : pruned.removed = ((stopsUnder (defaults.map (·.1)) above ps).filter (·.isElided defaults)).map Site.path
  kept : stopsUnder (defaults.map (·.1)) above pruned.kept =
    (stopsUnder (defaults.map (·.1)) above ps).filter (!·.isElided defaults)
  diagnostics : pruned.diagnostics = (stopsUnder (defaults.map (·.1)) above ps).filterMap (·.notice? defaults module)

section Pruning

variable {defaults : List (String × Json)} {module : String} {above : List String} {p : Property Value}
  {entries rest : ObjectLiteral} {inner others : Pruning}

/-- What becomes of an input at which the walk stops. -/
def pruneStop (defaults : List (String × Json)) (module : String) (s : Site) : Pruning :=
  { kept := if s.isElided defaults then [] else [s.property]
    removed := if s.isElided defaults then [s.path] else []
    diagnostics := (s.notice? defaults module).toList }

/-- Where the descent stops at a default, the input is compared with it. -/
theorem pruneAgainst_eq_pruneStop {default : Json}
    (h : Json.entry? defaults (keyPath (above ++ [p.key])) = some default) :
    pruneAgainst module (keyPath (above ++ [p.key])) default p = pruneStop defaults module ⟨above ++ [p.key], p⟩ := by
  have hc : Site.comparison? defaults ⟨above ++ [p.key], p⟩ = some ⟨keyPath (above ++ [p.key]), default, p.value⟩ := by
    rw [Site.comparison?, Site.path, h]
    rfl
  rw [pruneAgainst, pruneStop, Site.isElided, Site.notice?, hc]
  cases he : p.value.literalEq default with
  | none => simp [Comparison.holds, he]
  | some equal => cases equal <;> simp [Comparison.holds, he, Site.path, Pruning.keep]

/-- Where the descent stops without a default, the input is kept. -/
theorem keep_eq_pruneStop (h : Json.entry? defaults (keyPath (above ++ [p.key])) = none) :
    Pruning.keep p = pruneStop defaults module ⟨above ++ [p.key], p⟩ := by
  have hc : Site.comparison? defaults ⟨above ++ [p.key], p⟩ = none := by rw [Site.comparison?, Site.path, h]; rfl
  simp [pruneStop, Site.isElided, Site.notice?, hc, Pruning.keep]

namespace PrunesStops

/-- Without inputs there is nothing to prune. -/
theorem done : PrunesStops defaults module above [] .empty := by
  constructor <;> simp [stopsUnder_nil, Pruning.empty]

/-- A property at which the descent stops comes before the others. -/
theorem stop (ho : IsOpen (defaults.map (·.1)) above)
    (hp : ¬ (isObject p.value = true ∧ IsEntered (defaults.map (·.1)) (keyPath (above ++ [p.key]))))
    (h : PrunesStops defaults module above rest others) :
    PrunesStops defaults module above (p :: rest) ((pruneStop defaults module ⟨above ++ [p.key], p⟩).append others) := by
  have hstops := stopsUnder_of_stop ho hp
  refine ⟨?_, ?_, ?_⟩
  · rw [hstops, List.filter_cons, Pruning.append, h.removed, pruneStop]
    cases Site.isElided defaults ⟨above ++ [p.key], p⟩ <;> simp
  · rw [hstops, List.filter_cons, Pruning.append, ← h.kept, pruneStop]
    cases Site.isElided defaults ⟨above ++ [p.key], p⟩ <;> simp [hstops]
  · rw [hstops, List.filterMap_cons, Pruning.append, h.diagnostics, pruneStop]
    cases Site.notice? defaults module ⟨above ++ [p.key], p⟩ <;> simp

/-- An object that is entered comes before the others, with what is left in it. -/
theorem enter (he : IsEntered (defaults.map (·.1)) (keyPath (above ++ [p.key]))) (hv : p.value = .object entries)
    (hin : PrunesStops defaults module (above ++ [p.key]) entries inner)
    (h : PrunesStops defaults module above rest others) :
    PrunesStops defaults module above (p :: rest) ((Pruning.enclose p.key p.quoted p.line inner).append others) := by
  have hstops := stopsUnder_of_object hv he rest
  refine ⟨?_, ?_, ?_⟩
  · rw [hstops, List.filter_append, List.map_append, ← hin.removed, ← h.removed]
    rfl
  · rw [hstops, List.filter_append, ← hin.kept, ← h.kept, Pruning.append, Pruning.enclose]
    split
    · next hempty =>
      simp only [Bool.and_eq_true, List.isEmpty_iff] at hempty
      rw [hempty.1, stopsUnder_nil]
      rfl
    · exact @stopsUnder_of_object _ above { p with value := .object inner.kept } _ rfl he others.kept
  · rw [hstops, List.filterMap_append, ← hin.diagnostics, ← h.diagnostics]
    rfl

end PrunesStops

/-- Pruning inputs prunes them at the stops of the walk. -/
theorem prunesStops_prune (module : String) {parent : String} {ps : ObjectLiteral} (hparent : parent = keyPath above)
    (ho : IsOpen (defaults.map (·.1)) above) :
    PrunesStops defaults module above ps (prune defaults module parent ps) := by
  induction parent, ps using walk_induction defaults generalizing above with
  | done parent =>
    rw [prune]
    exact .done
  | found parent p rest default he ih =>
    rw [prune_of_default he, hparent, ← keyPath_concat]
    rw [hparent, ← keyPath_concat] at he
    rw [pruneAgainst_eq_pruneStop he]
    exact .stop ho (fun hp => hp.2.1 (mem_paths_of_eq_some he)) (hparent ▸ ih hparent ho)
  | enter parent p entries rest he hv hb ih ih' =>
    rw [prune_of_object he hv hb]
    rw [hparent, ← keyPath_concat] at he hb
    have hentered : IsEntered (defaults.map (·.1)) (keyPath (above ++ [p.key])) := isEntered_iff.2 ⟨he, hb⟩
    exact .enter hentered hv (ih (by rw [hparent, keyPath_concat]) (ho.concat hentered)) (ih' hparent ho)
  | pass parent p rest he hb ih =>
    rw [prune_of_pass he hb]
    rw [hparent, ← keyPath_concat] at he hb
    rw [keep_eq_pruneStop he]
    refine .stop ho ?_ (ih hparent ho)
    rintro ⟨hobject, hentered⟩
    obtain ⟨entries, hv⟩ := isObject_iff.1 hobject
    exact Bool.false_ne_true ((hb entries hv).symm.trans (isEntered_iff.1 hentered).2)

/-- Pruning inputs prunes the stops of the descent into them. -/
theorem prunesStops_root (defaults : List (String × Json)) (module : String) (inputs : ObjectLiteral) :
    PrunesStops defaults module [] inputs (prune defaults module "" inputs) :=
  prunesStops_prune module rfl .nil

end Pruning

section Flat

variable {defaults : List (String × Json)}

/-- Pruning inputs one by one. -/
def pruneFlat (defaults : List (String × Json)) (module : String) (ps : ObjectLiteral) : Pruning :=
  ps.foldr (fun p => (pruneStop defaults module ⟨[p.key], p⟩).append) .empty

/-- Without a point in the path of a default the walk enters nothing. -/
theorem prune_of_flat (h : ∀ d ∈ defaults, '.' ∉ d.1.toList) (module : String) (ps : ObjectLiteral) :
    prune defaults module "" ps = pruneFlat defaults module ps := by
  have hbelow (path : String) : hasPathBelow defaults path = false := by
    rw [hasPathBelow, List.any_eq_false]
    rintro ⟨key, default⟩ hd hp
    refine h _ hd ((List.isPrefixOf_iff_prefix.1 hp).subset ?_)
    simp
  induction ps with
  | nil => rw [prune, pruneFlat, List.foldr_nil]
  | cons p rest ih =>
    have hpath : childPath "" p.key = keyPath ([] ++ [p.key]) := rfl
    rw [pruneFlat, List.foldr_cons, ← pruneFlat, ← ih]
    cases he : Json.entry? defaults (childPath "" p.key) with
    | none =>
      rw [prune_of_pass he fun _ _ => hbelow _]
      rw [hpath] at he
      rw [keep_eq_pruneStop he, List.nil_append]
    | some default =>
      rw [prune_of_default he, hpath]
      rw [hpath] at he
      rw [pruneAgainst_eq_pruneStop he, List.nil_append]

end Flat

end BicepMigration.Migration
