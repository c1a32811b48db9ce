import BicepMigration.Proofs.Migration.PropertyPaths

/-!
# Walks by paths

The properties of an object are listed with the keys that lead to them, each one before those inside it. A walk by
paths enters an object if paths lie below its own path and its own path is none of them. It stops at every other
property that it comes to. Nothing is said here of what is done where it stops.
-/

namespace BicepMigration.Migration

open Catalog Template

/-- A property somewhere in an object, with the keys that lead to it. Its own key is the last one. -/
structure Site where
  keys : List String
  property : Property Value

/-- The path of a property. -/
def Site.path (s : Site) : String := keyPath s.keys

mutual

/-- The properties in a value that stands under keys, in order. -/
def sitesIn (above : List String) : Value → List Site
  | .object entries => sites above entries
  | _ => []

/-- Properties that stand under keys, in order, each followed by those inside it. -/
def sites (above : List String) : List (Property Value) → List Site
  | [] => []
  | ⟨key, quoted, value, line⟩ :: rest =>
    ⟨above ++ [key], ⟨key, quoted, value, line⟩⟩ :: (sitesIn (above ++ [key]) value ++ sites above rest)

end

/-- The value is an object. -/
def isObject : Value → Bool
  | .object _ => true
  | _ => false

/-- An object with this path is entered: the path is not one of the paths, and some of them lie below it. -/
def IsEntered (paths : List String) (path : String) : Prop :=
  path ∉ paths ∧ ∃ p ∈ paths, (path ++ ".").toList <+: p.toList

/-- All keys but the last one lead to objects that are entered. -/
def Site.IsReached (paths : List String) (s : Site) : Prop :=
  ∀ n < s.keys.length, 0 < n → IsEntered paths (keyPath (s.keys.take n))

/-- The walk comes to the property and does not go on below it. -/
def Site.IsStop (paths : List String) (s : Site) : Prop :=
  s.IsReached paths ∧ ¬ (isObject s.property.value = true ∧ IsEntered paths s.path)

instance (paths : List String) (path : String) : Decidable (IsEntered paths path) := inferInstanceAs (Decidable (_ ∧ _))

instance (paths : List String) (s : Site) : Decidable (s.IsReached paths) := inferInstanceAs (Decidable (∀ _, _))

instance (paths : List String) (s : Site) : Decidable (s.IsStop paths) := inferInstanceAs (Decidable (_ ∧ _))

/-- The properties under keys at which a walk by paths stops, in order. -/
def stopsUnder (paths : List String) (above : List String) (ps : ObjectLiteral) : List Site :=
  (sites above ps).filter (·.IsStop paths)

/-- The properties of an object at which a walk by paths stops, in order. -/
def stops (paths : List String) (ps : ObjectLiteral) : List Site := stopsUnder paths [] ps

section Walk

variable {paths above : List String} {p : Property Value}

mutual

/-- What stands inside a value stands in an object, under further keys. -/
theorem exists_keys_of_mem_sitesIn {s : Site} : {above : List String} → {v : Value} → s ∈ sitesIn above v →
    isObject v = true ∧ ∃ key more, s.keys = above ++ key :: more
  | _, .object _, h => by
    rw [sitesIn] at h
    obtain ⟨key, more, hkeys, -⟩ := exists_keys_of_mem_sites h
    exact ⟨rfl, key, more, hkeys⟩
  | _, .string _, h | _, .interpolated _, h | _, .number _, h | _, .bool _, h | _, .null, h | _, .array _, h
  | _, .expression _, h => by simp [sitesIn] at h

/-- Keys of a property start with those that it stands under, and the next one is a key of the object. -/
theorem exists_keys_of_mem_sites {s : Site} : {above : List String} → {ps : List (Property Value)} →
    s ∈ sites above ps → ∃ key more, s.keys = above ++ key :: more ∧ key ∈ ps.map (·.key)
  | _, [], h => by simp [sites] at h
  | _, ⟨key, quoted, value, line⟩ :: rest, h => by
    rw [sites] at h
    rcases List.mem_cons.1 h with rfl | h
    · exact ⟨key, [], rfl, List.mem_cons_self⟩
    · rcases List.mem_append.1 h with h | h
      · obtain ⟨-, key', more, hkeys⟩ := exists_keys_of_mem_sitesIn h
        exact ⟨key, key' :: more, by rw [hkeys, List.append_assoc]; rfl, List.mem_cons_self⟩
      · obtain ⟨key', more, hkeys, hmem⟩ := exists_keys_of_mem_sites h
        exact ⟨key', more, hkeys, List.mem_cons_of_mem _ hmem⟩

end

/-- Every object on the way is entered. -/
def IsOpen (paths above : List String) : Prop := ∀ n ≤ above.length, 0 < n → IsEntered paths (keyPath (above.take n))

/-- The way to the top is open. -/
theorem IsOpen.nil : IsOpen paths [] := fun _ hle hlt => absurd hle (Nat.not_le.2 hlt)

/-- Under keys that are all entered every property is reached. -/
theorem IsOpen.isReached {s : Site} {key : String} (h : IsOpen paths above) (hkeys : s.keys = above ++ [key]) :
    s.IsReached paths := by
  intro n hlt hn
  rw [hkeys, List.length_append, List.length_singleton] at hlt
  have hle : n ≤ above.length := by omega
  rw [hkeys, List.take_append_of_le_length hle]
  exact h n hle hn

/-- An object that is entered as well keeps the way open. -/
theorem IsOpen.concat {key : String} (h : IsOpen paths above) (hp : IsEntered paths (keyPath (above ++ [key]))) :
    IsOpen paths (above ++ [key]) := by
  intro n hle hn
  rcases Nat.lt_or_ge n (above ++ [key]).length with hlt | hge
  · exact (h.isReached (s := ⟨above ++ [key], .plain "" .null⟩) rfl) n hlt hn
  · rw [List.take_of_length_le hge]
    exact hp

/-- A walk does not come to what is below a property that is not entered. -/
theorem not_isReached {s : Site} {key : String} {more : List String} (hkeys : s.keys = above ++ key :: more)
    (hne : above ≠ []) (hp : ¬ IsEntered paths (keyPath above)) : ¬ s.IsReached paths := by
  intro hs
  have hlt : above.length < s.keys.length := by simp [hkeys]
  have htake := hs above.length hlt (List.length_pos_iff.2 hne)
  rw [hkeys, List.take_left] at htake
  exact hp htake

/-- Without properties the descent stops nowhere. -/
theorem stopsUnder_nil (paths above : List String) : stopsUnder paths above [] = [] := by rw [stopsUnder, sites]; rfl

/-- The walk stops at a property that is not entered. -/
theorem stopsUnder_of_stop (ho : IsOpen paths above)
    (hp : ¬ (isObject p.value = true ∧ IsEntered paths (keyPath (above ++ [p.key])))) (rest : ObjectLiteral) :
    stopsUnder paths above (p :: rest) = ⟨above ++ [p.key], p⟩ :: stopsUnder paths above rest := by
  obtain ⟨key, quoted, value, line⟩ := p
  have hstop : Site.IsStop paths ⟨above ++ [key], ⟨key, quoted, value, line⟩⟩ := ⟨ho.isReached rfl, hp⟩
  have hinner : (sitesIn (above ++ [key]) value).filter (·.IsStop paths) = [] := by
    refine List.filter_eq_nil_iff.2 fun s hs => ?_
    obtain ⟨hobject, key', more, hkeys⟩ := exists_keys_of_mem_sitesIn hs
    have hnot : ¬ s.IsReached paths := not_isReached hkeys (by simp) fun he => hp ⟨hobject, he⟩
    simpa using fun h : s.IsStop paths => hnot h.1
  rw [stopsUnder, sites, List.filter_cons_of_pos (by simpa using hstop), List.filter_append, hinner, List.nil_append]
  rfl

/-- The walk goes through an object that is entered. -/
theorem stopsUnder_of_object {entries : ObjectLiteral} (hv : p.value = .object entries)
    (hp : IsEntered paths (keyPath (above ++ [p.key]))) (rest : ObjectLiteral) :
    stopsUnder paths above (p :: rest) = stopsUnder paths (above ++ [p.key]) entries ++ stopsUnder paths above rest := by
  obtain ⟨key, quoted, value, line⟩ := p
  obtain rfl : value = .object entries := hv
  have hstop : ¬ Site.IsStop paths ⟨above ++ [key], ⟨key, quoted, .object entries, line⟩⟩ := fun h => h.2 ⟨rfl, hp⟩
  rw [stopsUnder, sites, sitesIn, List.filter_cons_of_neg (by simpa using hstop), List.filter_append]
  rfl

end Walk

section Tables

variable {α : Type} {table : List (String × α)} {path : String}

/-- A path is entered if the table has nothing at it and something below it. -/
theorem isEntered_iff : IsEntered (table.map (·.1)) path ↔
    Json.entry? table path = none ∧ hasPathBelow table path = true := by
  rw [IsEntered, entry?_eq_none_iff, hasPathBelow, List.any_eq_true]
  refine and_congr_right fun _ => ⟨?_, ?_⟩
  · rintro ⟨p, hp, hprefix⟩
    obtain ⟨e, he, rfl⟩ := List.mem_map.1 hp
    exact ⟨e, he, List.isPrefixOf_iff_prefix.2 hprefix⟩
  · rintro ⟨e, he, hprefix⟩
    exact ⟨e.1, List.mem_map_of_mem he, List.isPrefixOf_iff_prefix.1 hprefix⟩

end Tables

end BicepMigration.Migration
