import BicepMigration.Catalog.Mapping
import BicepMigration.Fingerprint

/-!
# Catalogs

A catalog is built from a document whose entries are all well formed. Several entries may match a resource
type. An exact type goes before a pattern, a more specific range before a less specific one, and otherwise
the entry that comes first in the document. An index finds the entries for an exact type without a walk over
all entries; the patterns are tried one by one.
-/

namespace BicepMigration.Catalog

open Text

/-- Which resource types an entry is for. -/
inductive TypePattern where
  /-- One type, in small letters. -/
  | exact (type : String)
  | glob (pieces : List Glob.Piece)
  deriving DecidableEq, Repr

/-- A text with the capital letters of ASCII made small. -/
def smallLetters (text : String) : String := String.ofList (text.toList.map Char.toLower)

namespace TypePattern

/-- Reads a type, or a pattern if a character in it has a special meaning. -/
def read (text : String) : Except Glob.Error TypePattern :=
  if text.toList.any fun c => c = '*' || c = '?' || c = '[' then (Glob.read text).map glob
  else .ok (exact (smallLetters text))

/-- A resource type matches a glob. -/
def globMatches (pieces : List Glob.Piece) (type : String) : Bool := Glob.holds pieces type.toList

/-- The place of a pattern in the order of precedence. -/
def rank : TypePattern → Nat
  | exact _ => 0
  | glob _ => 1

end TypePattern

/-- An entry of a catalog. -/
structure Entry where
  mapping : Mapping
  pattern : TypePattern
  range : VersionRange
  deriving Repr

/-- A catalog. -/
structure ModuleCatalog where
  /-- The entries, in the order of the document. -/
  entries : List Entry
  /-- The fingerprint of the document. -/
  fingerprint : String
  deriving Repr

/-- Builds an entry. -/
def Entry.ofMapping (mapping : Mapping) : Except EntryFault Entry :=
  match mapping.fault? with
  | some fault => .error fault
  | none =>
    match TypePattern.read mapping.resourceType with
    | .error error => .error (.pattern mapping.resourceType error)
    | .ok pattern =>
      match mapping.versions.range with
      | .error fault => .error (.versions fault)
      | .ok range => .ok ⟨mapping, pattern, range⟩

/-- An entry of a document that is not well formed. -/
structure InvalidEntry where
  /-- The place of the entry in the document, counted from zero. -/
  index : Nat
  resourceType : String
  fault : EntryFault
  deriving DecidableEq, Repr

/-- Builds entries, given the number of entries before them. -/
def buildEntries (index : Nat) : List Mapping → Except InvalidEntry (List Entry)
  | [] => .ok []
  | mapping :: rest =>
    match Entry.ofMapping mapping with
    | .error fault => .error ⟨index, mapping.resourceType, fault⟩
    | .ok entry => (buildEntries (index + 1) rest).map (entry :: ·)

/-- An entry holds what its mapping says, and the mapping is well formed. -/
theorem Entry.ofMapping_eq_ok_iff {mapping : Mapping} {entry : Entry} :
    Entry.ofMapping mapping = .ok entry ↔ mapping.fault? = none ∧ entry.mapping = mapping ∧
      TypePattern.read mapping.resourceType = .ok entry.pattern ∧ mapping.versions.range = .ok entry.range := by
  obtain ⟨mapping', pattern, range⟩ := entry
  unfold Entry.ofMapping
  cases mapping.fault? with
  | some fault => simp
  | none =>
    cases TypePattern.read mapping.resourceType with
    | error error => simp
    | ok pattern' =>
      cases mapping.versions.range with
      | error fault => simp
      | ok range' => simp [eq_comm (a := mapping)]

/-- Every mapping makes the entry in its place. -/
theorem map_ofMapping_of_buildEntries {index : Nat} {mappings : List Mapping} {entries : List Entry}
    (h : buildEntries index mappings = .ok entries) : mappings.map Entry.ofMapping = entries.map .ok := by
  induction mappings generalizing index entries with
  | nil =>
    obtain rfl : [] = entries := by simpa [buildEntries] using h
    rfl
  | cons mapping rest ih =>
    rw [buildEntries] at h
    cases he : Entry.ofMapping mapping with
    | error fault => simp [he] at h
    | ok entry =>
      cases hr : buildEntries (index + 1) rest with
      | error fault => simp [he, hr, Except.map] at h
      | ok others =>
        obtain rfl : entry :: others = entries := by simpa [he, hr, Except.map] using h
        rw [List.map_cons, List.map_cons, he, ih hr]

/-- Where entries are found by their patterns. The indices are in the order of the document. -/
structure TypeIndex where
  /-- The entries for one type, under the type in small letters. -/
  exact : List (String × List Nat)
  /-- The entries for types that match a glob, with the globs. -/
  globs : List (List Glob.Piece × Nat)
  deriving DecidableEq, Repr

namespace TypeIndex

/-- Adds an index under a key, after those that are there. -/
def addUnder (key : String) (i : Nat) : List (String × List Nat) → List (String × List Nat)
  | [] => [(key, [i])]
  | (k, indices) :: rest =>
    if k = key then (k, indices ++ [i]) :: rest else (k, indices) :: addUnder key i rest

/-- Adds the index of an entry with a pattern. -/
def add (index : TypeIndex) (i : Nat) : TypePattern → TypeIndex
  | .exact key => { index with exact := addUnder key i index.exact }
  | .glob pieces => { index with globs := index.globs ++ [(pieces, i)] }

/-- Adds entries, given the number of entries before them. -/
def addAll (index : TypeIndex) (i : Nat) : List Entry → TypeIndex
  | [] => index
  | entry :: rest => (index.add i entry.pattern).addAll (i + 1) rest

/-- The index of entries. -/
def ofEntries (entries : List Entry) : TypeIndex := (TypeIndex.mk [] []).addAll 0 entries

/-- The indices of the entries for a resource type: those for exactly this type, then those with a glob that
matches it. What a glob matches is told by a test. -/
def found (index : TypeIndex) (globs : List Glob.Piece → String → Bool) (type : String) : List Nat :=
  (index.exact.lookup (smallLetters type)).getD [] ++
    (index.globs.filter fun (pieces, _) => globs pieces type).map (·.2)

end TypeIndex

namespace ModuleCatalog

/-- Builds a catalog from a document. -/
def ofDocument (document : Document) : Except InvalidEntry ModuleCatalog :=
  (buildEntries 0 document.modules).map fun entries => ⟨entries, Fingerprint.ofJson document.toJson⟩

/-- The catalog without entries that comes from no document. -/
def empty : ModuleCatalog := ⟨[], Fingerprint.ofText ""⟩

/-- The number of entries. -/
def size (catalog : ModuleCatalog) : Nat := catalog.entries.length

/-- The mapping with an index. -/
def mapping? (catalog : ModuleCatalog) (index : Nat) : Option Mapping :=
  catalog.entries[index]?.map (·.mapping)

/-- An entry goes before another in precedence, or they are one entry. Entries come with their indices. -/
def precedes (a b : Entry × Nat) : Bool :=
  let x := (a.1.pattern.rank, a.1.range.specificity.1, a.1.range.specificity.2, a.2)
  let y := (b.1.pattern.rank, b.1.range.specificity.1, b.1.range.specificity.2, b.2)
  x.1 < y.1 || (x.1 = y.1 && (x.2.1 < y.2.1 || (x.2.1 = y.2.1 && (x.2.2.1 < y.2.2.1 ||
    (x.2.2.1 = y.2.2.1 && x.2.2.2 ≤ y.2.2.2)))))

/-- The index of the entries. -/
def index (catalog : ModuleCatalog) : TypeIndex := .ofEntries catalog.entries

section Globs

variable (globs : List Glob.Piece → String → Bool)

/-- The entries for a resource type, with their indices, in order of precedence. What a glob matches is told
by a test. -/
def matchingBy (catalog : ModuleCatalog) (type : String) : List (Entry × Nat) :=
  ((catalog.index.found globs type).filterMap fun i => catalog.entries[i]?.map (·, i)).mergeSort precedes

/-- The indices of the entries for a resource type, in order of precedence. -/
def candidatesBy (catalog : ModuleCatalog) (type : String) : List Nat :=
  (catalog.matchingBy globs type).map (·.2)

/-- The index of the first entry for a resource type whose range holds the version. -/
def findIndexBy? (catalog : ModuleCatalog) (type version : String) : Option Nat :=
  match ApiVersion.read? (trim version) with
  | none => none
  | some v => ((catalog.matchingBy globs type).find? fun e => e.1.range.contains v).map (·.2)

end Globs

/-- The indices of the entries for a resource type, in order of precedence, with the language of globs. -/
def candidates (catalog : ModuleCatalog) (type : String) : List Nat :=
  catalog.candidatesBy TypePattern.globMatches type

/-- The index of the entry for a resource type and version, with the language of globs. -/
def findIndex? (catalog : ModuleCatalog) (type version : String) : Option Nat :=
  catalog.findIndexBy? TypePattern.globMatches type version

/-- The mapping for a resource type and version. -/
def find? (catalog : ModuleCatalog) (type version : String) : Option Mapping :=
  (catalog.findIndex? type version).bind catalog.mapping?

/-- The mapping for a resource type, whatever the version. -/
def findAnyVersion? (catalog : ModuleCatalog) (type : String) : Option Mapping :=
  (catalog.candidates type).head?.bind catalog.mapping?

/-- A catalog that is read from a document has one entry for each mapping of it, in order, and all of them could be
made. -/
theorem map_ofMapping_of_ofDocument {document : Document} {catalog : ModuleCatalog}
    (h : ofDocument document = .ok catalog) : document.modules.map Entry.ofMapping = catalog.entries.map .ok := by
  unfold ofDocument at h
  cases hb : buildEntries 0 document.modules with
  | error fault => simp [hb, Except.map] at h
  | ok entries =>
    obtain rfl := Except.ok.inj (by simpa only [hb, Except.map] using h)
    exact map_ofMapping_of_buildEntries hb

end ModuleCatalog

end BicepMigration.Catalog
