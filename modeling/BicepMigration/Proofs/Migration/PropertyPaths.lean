import BicepMigration.Proofs.Migration.Names

/-!
# Paths of properties

A path is made from the keys that lead to a property. A path of a catalog is identifiers joined by points, so it is not
empty and no point starts it.
-/

namespace BicepMigration.Migration

open Catalog Template

/-- The path of a list of keys. -/
def keyPath (keys : List String) : String := keys.foldl childPath ""

/-- A path is another one or lies below it. -/
def PathWithin (path outer : String) : Prop := path = outer ∨ (outer ++ ".").toList <+: path.toList

instance (path outer : String) : Decidable (PathWithin path outer) := inferInstanceAs (Decidable (_ ∨ _))

section Paths

/-- The path of a child is that of its parent with a point and the key. -/
theorem toList_childPath {parent : String} (h : parent ≠ "") (key : String) :
    (childPath parent key).toList = (parent ++ ".").toList ++ key.toList := by
  rw [childPath, if_neg h, String.toList_append]

/-- No child of a path is the empty path. -/
theorem childPath_ne_empty {parent : String} (h : parent ≠ "") (key : String) : childPath parent key ≠ "" := by
  intro he
  have hlist := congrArg String.toList he
  rw [toList_childPath h, String.toList_append] at hlist
  simp at hlist

/-- A path below a child lies below the parent. -/
theorem prefix_of_prefix_child {parent key path : String} (h : parent ≠ "")
    (hp : (childPath parent key ++ ".").toList <+: path.toList) : (parent ++ ".").toList <+: path.toList := by
  rw [String.toList_append, toList_childPath h, List.append_assoc] at hp
  exact (List.prefix_append _ _).trans hp

/-- Keys lead below the path that they start from. -/
theorem pathWithin_foldl {path : String} (h : path ≠ "") (keys : List String) :
    PathWithin (keys.foldl childPath path) path := by
  induction keys generalizing path with
  | nil => exact .inl rfl
  | cons key keys ih =>
    refine .inr ?_
    rcases ih (childPath_ne_empty h key) with heq | hp
    · rw [List.foldl_cons, heq, toList_childPath h]
      exact List.prefix_append _ _
    · exact prefix_of_prefix_child h hp

/-- A property path is not empty. -/
theorem ne_empty_of_isPropertyPath {path : String} (h : isPropertyPath path = true) : path ≠ "" := by
  rintro rfl
  simp [isPropertyPath, pathParts, isIdentifierChars] at h

/-- No point starts a path. -/
theorem head_ne_point_of_isPropertyPath {path : String} (h : isPropertyPath path = true) :
    ¬ ".".toList <+: path.toList := by
  rintro ⟨rest, hrest⟩
  rw [isPropertyPath, ← hrest] at h
  simp [pathParts, isIdentifierChars] at h

/-- One more key leads to a child. -/
theorem keyPath_concat (keys : List String) (key : String) : keyPath (keys ++ [key]) = childPath (keyPath keys) key := by
  rw [keyPath, List.foldl_append]
  rfl

/-- The path under keys is the parent and the keys with points between them. -/
theorem foldl_childPath {path : String} (h : path ≠ "") (keys : List String) :
    keys.foldl childPath path = ".".intercalate (path :: keys) := by
  induction keys generalizing path with
  | nil => simp
  | cons key keys ih =>
    rw [List.foldl_cons, ih (childPath_ne_empty h key), childPath, if_neg h, String.intercalate_cons_cons,
      String.intercalate_cons_append]

/-- Keys joined with points make the path, unless the first one is empty. -/
theorem keyPath_eq_intercalate {keys : List String} (h : keys.head? ≠ some "") :
    keyPath keys = ".".intercalate keys := by
  cases keys with
  | nil => simp [keyPath]
  | cons key keys => exact foldl_childPath (fun he => h (congrArg some he)) keys

/-- No part between points holds a point. -/
theorem point_not_mem_of_mem_pathParts {text part : List Char} (h : part ∈ pathParts text) : '.' ∉ part := by
  induction text generalizing part with
  | nil =>
    obtain rfl : part = [] := by simpa [pathParts] using h
    simp
  | cons c text ih =>
    rw [pathParts] at h
    split at h
    · rcases List.mem_cons.1 h with rfl | h
      · simp
      · exact ih h
    · next hc =>
      split at h
      · obtain rfl : part = [c] := by simpa using h
        simpa using Ne.symm hc
      · next first rest hparts =>
        rcases List.mem_cons.1 h with rfl | h
        · have hfirst := ih (hparts ▸ List.mem_cons_self)
          simp [hfirst, Ne.symm hc]
        · exact ih (hparts ▸ List.mem_cons_of_mem _ h)

/-- The part before a point is the first one. -/
theorem pathParts_append {part : List Char} (h : '.' ∉ part) (text : List Char) :
    pathParts (part ++ '.' :: text) = part :: pathParts text := by
  induction part with
  | nil => rfl
  | cons c part ih =>
    obtain ⟨hc, hpart⟩ := List.ne_and_not_mem_of_not_mem_cons h
    rw [List.cons_append, pathParts, if_neg (Ne.symm hc), ih hpart]

/-- A text without a point is one part. -/
theorem pathParts_of_not_mem {part : List Char} (h : '.' ∉ part) : pathParts part = [part] := by
  induction part with
  | nil => rfl
  | cons c part ih =>
    obtain ⟨hc, hpart⟩ := List.ne_and_not_mem_of_not_mem_cons h
    rw [pathParts, if_neg (Ne.symm hc), ih hpart]

/-- Texts without points are the parts of what they make when they are joined with points. -/
theorem pathParts_intercalate {parts : List (List Char)} (hne : parts ≠ []) (h : ∀ part ∈ parts, '.' ∉ part) :
    pathParts (['.'].intercalate parts) = parts := by
  induction parts with
  | nil => exact absurd rfl hne
  | cons part parts ih =>
    obtain ⟨hpart, hparts⟩ := List.forall_mem_cons.1 h
    cases parts with
    | nil => rw [List.intercalate_singleton, pathParts_of_not_mem hpart]
    | cons next rest =>
      rw [List.intercalate_cons_cons, List.append_assoc, List.singleton_append, pathParts_append hpart,
        ih (List.cons_ne_nil _ _) hparts]

section Tables

variable {α : Type} {table : List (String × α)} {path : String}

/-- A table has nothing at a path that is none of its paths. -/
theorem entry?_eq_none_iff : Json.entry? table path = none ↔ path ∉ table.map (·.1) := by
  simp only [Json.entry?, List.lookup_eq_none_iff, List.mem_map, not_exists, not_and, bne_iff_ne, ne_comm]

/-- A table has something at its paths only. -/
theorem mem_paths_of_eq_some {value : α} (h : Json.entry? table path = some value) : path ∈ table.map (·.1) := by
  by_contra hpath
  rw [entry?_eq_none_iff.2 hpath] at h
  cases h

end Tables

end Paths

/-- The inputs and the defaults of a mapping are given by paths. -/
theorem isPropertyPath_of_fault {mapping : Mapping} (h : mapping.fault? = none) :
    (∀ e ∈ mapping.inputs, isPropertyPath e.1 = true) ∧ ∀ d ∈ mapping.defaults, isPropertyPath d.1 = true := by
  obtain ⟨-, -, -, hinputs, -, hdefaults⟩ := fault?_eq_none_iff.1 h
  exact ⟨fun e he => (hinputs e he).1, hdefaults⟩

end BicepMigration.Migration
