import BicepMigration.Proofs.Migration.RepairedText
import BicepMigration.Proofs.Template.Renaming

/-!
# Names that a plan makes

The symbol of a module starts like the symbol of its resource, and inputs and outputs of a checked catalog are
names. So the references that are repaired are renamed in place, whatever the members are that they access.
-/

namespace BicepMigration.Migration

open Catalog Template Text

/-- All mappings of the catalog have passed the checks of a document. -/
def IsChecked (catalog : ModuleCatalog) : Prop :=
  ∀ i mapping, catalog.mapping? i = some mapping → mapping.fault? = none

/-- The entries of a catalog are built from the mappings of its document. -/
theorem mapping_of_ofDocument {document : Document} {catalog : ModuleCatalog}
    (h : ModuleCatalog.ofDocument document = .ok catalog) :
    ∀ entry ∈ catalog.entries, entry.mapping ∈ document.modules ∧ entry.mapping.fault? = none := by
  intro entry he
  have hmem : Except.ok entry ∈ document.modules.map Entry.ofMapping :=
    ModuleCatalog.map_ofMapping_of_ofDocument h ▸ List.mem_map_of_mem he
  obtain ⟨mapping, hm, hentry⟩ := List.mem_map.1 hmem
  obtain ⟨hfault, rfl, -⟩ := Entry.ofMapping_eq_ok_iff.1 hentry
  exact ⟨hm, hfault⟩

/-- A catalog that was built from a document is checked. -/
theorem isChecked_ofDocument {document : Document} {catalog : ModuleCatalog}
    (h : ModuleCatalog.ofDocument document = .ok catalog) : IsChecked catalog := by
  intro i mapping hm
  obtain ⟨entry, he, rfl⟩ := Option.map_eq_some_iff.1 hm
  exact (mapping_of_ofDocument h entry (List.mem_of_getElem? he)).2

/-- A table is checked: its keys are paths and its values are names. -/
theorem tableFault_eq_none_iff {path name : String → EntryFault} {table : List (String × String)} :
    tableFault path name table = none ↔ ∀ e ∈ table, isPropertyPath e.1 = true ∧ isIdentifier e.2 = true := by
  induction table with
  | nil => simp [tableFault]
  | cons e rest ih => cases hp : isPropertyPath e.1 <;> cases hn : isIdentifier e.2 <;> simp [tableFault, hp, hn, ih]

/-- What a checked mapping says of its locator, its names and its paths. -/
theorem fault?_eq_none_iff {mapping : Mapping} : mapping.fault? = none ↔
    Text.isBlankText mapping.resourceType = false ∧ Text.isBlankText mapping.module = false ∧
      '\'' ∉ mapping.module.toList ∧
      (∀ e ∈ mapping.inputs, isPropertyPath e.1 = true ∧ isIdentifier e.2 = true) ∧
      (∀ e ∈ mapping.outputs, isPropertyPath e.1 = true ∧ isIdentifier e.2 = true) ∧
      ∀ d ∈ mapping.defaults, isPropertyPath d.1 = true := by
  rw [← @tableFault_eq_none_iff .inputPath .inputName, ← @tableFault_eq_none_iff .outputPath .outputName]
  unfold Mapping.fault?
  cases Text.isBlankText mapping.resourceType
  · cases Text.isBlankText mapping.module
    · by_cases hquote : '\'' ∈ mapping.module.toList <;> simp [hquote]
    · simp
  · simp

/-- What a checked mapping says of its names and its locator. -/
theorem tables_of_fault {mapping : Mapping} (h : mapping.fault? = none) :
    (∀ e ∈ mapping.inputs, isIdentifier e.2 = true) ∧ (∀ e ∈ mapping.outputs, isIdentifier e.2 = true) ∧
      '\'' ∉ mapping.module.toList ∧ Text.isBlankText mapping.module = false := by
  obtain ⟨-, hblank, hquote, hinputs, houtputs, -⟩ := fault?_eq_none_iff.1 h
  exact ⟨fun e he => (hinputs e he).2, fun e he => (houtputs e he).2, hquote, hblank⟩

/-- Identifiers of catalogs are names of templates. -/
theorem isName_of_isIdentifier {text : String} (h : isIdentifier text = true) : IsName text := by
  unfold isIdentifier at h
  cases ht : text.toList with
  | nil => simp [ht, isIdentifierChars] at h
  | cons c cs =>
    rw [ht] at h
    simp only [isIdentifierChars, Bool.and_eq_true, List.all_eq_true] at h
    exact ⟨c, cs, ht, h.1, h.2⟩

/-- What is found in a table is in it. -/
theorem mem_of_entry? {α : Type} {entries : List (String × α)} {key : String} {value : α}
    (h : Json.entry? entries key = some value) : (key, value) ∈ entries := by
  unfold Json.entry? at h
  induction entries with
  | nil => simp at h
  | cons e rest ih =>
    obtain ⟨k, v⟩ := e
    rw [List.lookup_cons] at h
    split at h
    · next hk =>
      obtain rfl : key = k := by simpa using hk
      obtain rfl := Option.some.inj h
      exact List.mem_cons_self ..
    · exact List.mem_cons_of_mem _ (ih h)

/-- A derived symbol is the old one with `Module` and digits after it. -/
theorem numbered_eq (old : String) (n : Nat) :
    ∃ digits, (numbered (old ++ "Module") n).toList = old.toList ++ ("Module".toList ++ digits) ∧
      ∀ c ∈ digits, c.isDigit = true := by
  unfold numbered
  split
  · exact ⟨[], by simp, by simp⟩
  · refine ⟨(toString n).toList, by simp, fun c hc => ?_⟩
    simp only [Nat.toString_eq_repr, Nat.repr, String.toList_ofList] at hc
    exact Nat.isDigit_of_mem_toDigits (by decide) (by decide) hc

/-- The symbol of a module is that of its resource, with an ending. -/
theorem deriveSymbol_eq (old : String) (taken : List String) :
    ∃ digits, (deriveSymbol old taken).toList = old.toList ++ ("Module".toList ++ digits) ∧
      ∀ c ∈ digits, c.isDigit = true := by
  obtain ⟨n, -, hfree, hbefore⟩ := exists_first_candidate old taken
  rw [deriveSymbol_eq_candidate hfree hbefore]
  exact numbered_eq old (n + 1)

/-- A symbol of a plan, with the ending that makes it the symbol of a module. -/
theorem Planned.newSymbol_eq {catalog : ModuleCatalog} {taken : List String} {index : Nat} {ss : List Statement}
    {plan : List PlanEntry} (h : Planned catalog taken index ss plan) {e : PlanEntry} (he : e ∈ plan) :
    ∃ digits, e.newSymbol.toList = e.symbol.toList ++ ("Module".toList ++ digits) ∧
      ∀ c ∈ digits, c.isDigit = true := by
  induction h with
  | done => simp at he
  | skip _ ih => exact ih he
  | @entry taken index s rest plan symbol type version body mappingIndex mapping _ _ ih =>
    rcases List.mem_cons.1 he with rfl | he
    · exact deriveSymbol_eq symbol taken
    · exact ih he

/-- A name goes on with digits. -/
theorem isNamePart_of_isDigit {c : Char} (h : c.isDigit = true) : isNamePart c = true := by
  simp [isNamePart, Char.isAlphanum, h]

/-- What is put after the old symbol goes on with a name. -/
theorem isNamePart_ending {digits : List Char} (h : ∀ c ∈ digits, c.isDigit = true) :
    ∀ c ∈ "Module".toList ++ digits, isNamePart c = true := by
  intro c hc
  rcases List.mem_append.1 hc with hc | hc
  · have hmodule : ∀ c ∈ "Module".toList, isNamePart c = true := List.all_eq_true.1 (by decide)
    exact hmodule c hc
  · exact isNamePart_of_isDigit (h c hc)

/-- A longer name is a name. -/
theorem isName_append {name : String} {symbol suffix : List Char} (h : IsSpelled .identifier symbol)
    (hname : name.toList = symbol ++ suffix) (hs : ∀ c ∈ suffix, isNamePart c = true) : IsName name := by
  obtain ⟨c, cs, rfl, hstart, hparts⟩ := h
  refine ⟨c, cs ++ suffix, by rw [hname]; rfl, hstart, fun d hd => ?_⟩
  rcases List.mem_append.1 hd with hd | hd
  · exact hparts d hd
  · exact hs d hd

/-- Members are written with points between them. -/
theorem isMembers_memberLexemes (names : List String) : IsMembers (memberLexemes names) := by
  induction names with
  | nil => exact .nil
  | cons name names ih => exact .cons rfl rfl ih

/-- Members that are names are written as names, without gaps. -/
theorem spelled_memberLexemes {names : List String} (h : ∀ name ∈ names, IsName name) :
    ∀ l ∈ memberLexemes names, l.gap = [] ∧ IsSpelled l.kind l.text ∧ (l.kind = .dot → l.text = ['.']) := by
  induction names with
  | nil => simp [memberLexemes]
  | cons name names ih =>
    intro l hl
    rcases List.mem_cons.1 hl with rfl | hl
    · exact ⟨rfl, ⟨'.', by simp [IsMarkChar]; decide, .inl ⟨rfl, rfl⟩⟩, fun _ => rfl⟩
    · rcases List.mem_cons.1 hl with rfl | hl
      · exact ⟨rfl, h name (by simp), fun hk => by cases hk⟩
      · exact ih (fun n hn => h n (List.mem_cons_of_mem _ hn)) l hl

/-- The names of members are names. -/
theorem isName_of_mem_memberTokens {here : Cursor} {ls : List Lexeme} (hl : ∀ l ∈ ls, IsSpelled l.kind l.text)
    {t : Token} (ht : t ∈ memberTokens (tokensAt here ls)) : IsName t.text := by
  fun_induction splitMembers ls generalizing here with
  | case1 point name rest hk members after hs ih =>
    rw [memberTokens_of_members hk] at ht
    rcases List.mem_cons.1 ht with rfl | ht
    · have hname := hl name (by simp)
      simp only [Bool.and_eq_true, decide_eq_true_eq] at hk
      rw [hk.2] at hname
      rw [IsName, Token.ofChars_text, String.toList_ofList]
      exact hname
    · exact ih (fun l h => hl l (by simp [h])) ht
  | case2 point name rest hk =>
    rw [memberTokens_of_not_members hk] at ht
    simp at ht
  | case3 ls hne =>
    rw [memberTokens_of_short hne] at ht
    simp at ht

/-- There are no tokens of members if there are no members. -/
theorem memberTokens_eq_nil_iff {here : Cursor} {ls : List Lexeme} :
    memberTokens (tokensAt here ls) = [] ↔ (splitMembers ls).1 = [] := by
  fun_cases splitMembers ls with
  | case1 point name rest hk members after hs =>
    rw [memberTokens_of_members hk]
    simp
  | case2 point name rest hk => simp [memberTokens_of_not_members hk]
  | case3 => simp [memberTokens_of_short ‹_›]

/-- An output that is found stands in the table, and the members after it are some of those that were given. -/
theorem longestOutput?_cases {outputs : List (String × String)} {members rest : List String} {n : Nat}
    {output : String} (h : longestOutput? outputs members n = some (output, rest)) :
    (∃ key, (key, output) ∈ outputs) ∧ ∀ name ∈ rest, name ∈ members := by
  induction n with
  | zero => simp [longestOutput?] at h
  | succ n ih =>
    unfold longestOutput? at h
    split at h
    · next output' he =>
      simp only [Option.some.injEq, Prod.mk.injEq] at h
      obtain ⟨rfl, rfl⟩ := h
      exact ⟨⟨_, mem_of_entry? he⟩, fun name hn => List.mem_of_mem_drop hn⟩
    · exact ih h

/-- What is written in place of a use: the symbol of the module, and names after it if names stood there. -/
theorem repairNames?_cases {outputs : List (String × String)} {newSymbol name : String} {use : SymbolUse}
    {names : List String} (h : repairNames? outputs newSymbol use = some (name, names)) :
    name = newSymbol ∧ (names = [] ↔ use.path = []) ∧
      ∀ n ∈ names, n = "outputs" ∨ (∃ key, (key, n) ∈ outputs) ∨ n ∈ use.path := by
  unfold repairNames? at h
  split at h
  · next hp =>
    split at h
    · simp only [Option.some.injEq, Prod.mk.injEq] at h
      obtain ⟨rfl, rfl⟩ := h
      exact ⟨rfl, by simpa using hp, by simp⟩
    · simp at h
  · next hp =>
    obtain ⟨⟨output, rest⟩, ho, he⟩ := Option.map_eq_some_iff.1 h
    simp only [Prod.mk.injEq] at he
    obtain ⟨rfl, rfl⟩ := he
    obtain ⟨hkey, hrest⟩ := longestOutput?_cases ho
    refine ⟨rfl, by simpa using hp, fun n hn => ?_⟩
    rcases List.mem_cons.1 hn with rfl | hn
    · exact .inl rfl
    · rcases List.mem_cons.1 hn with rfl | hn
      · exact .inr (.inl hkey)
      · exact .inr (.inr (hrest n hn))

/-- What is written in place of a use comes from its plan entry. -/
theorem repairLexemes?_cases {catalog : ModuleCatalog} {statements : List Statement} {analysis : Analysis}
    {use : SymbolUse} {new : Lexeme} {more : List Lexeme}
    (h : repairLexemes? catalog statements analysis use = some (new, more)) :
    ∃ entry mapping names, entry ∈ analysis.plan ∧ entry.symbol = use.symbol ∧
      catalog.mapping? entry.mappingIndex = some mapping ∧
      repairNames? mapping.outputs entry.newSymbol use = some (entry.newSymbol, names) ∧
      new = nameLexeme entry.newSymbol ∧ more = memberLexemes names := by
  unfold repairLexemes? at h
  split at h
  · simp at h
  · obtain ⟨entry, he, h⟩ := Option.bind_eq_some_iff.1 h
    obtain ⟨mapping, hm, h⟩ := Option.bind_eq_some_iff.1 h
    obtain ⟨⟨name, names⟩, hn, h⟩ := Option.bind_eq_some_iff.1 h
    simp only [Option.some.injEq, Prod.mk.injEq] at h
    obtain ⟨rfl, rfl⟩ := h
    obtain ⟨rfl, -⟩ := repairNames?_cases hn
    have hsymbol := List.find?_some he
    exact ⟨entry, mapping, names, List.mem_of_find?_eq_some he, by simpa using hsymbol, hm, hn, rfl, rfl⟩

/-- A reference that is repaired is renamed. -/
theorem isRenaming_repair {catalog : ModuleCatalog} {template : ScannedTemplate} (hc : IsChecked catalog)
    {before : List Token} {here : Cursor} {l new : Lexeme} {ls more : List Lexeme}
    (hl : ∀ m ∈ l :: ls, IsSpelled m.kind m.text) {use : SymbolUse} {symbols : List String}
    (hu : useAt? symbols before (Token.ofChars l.kind (here.advance l.gap) l.text)
      (tokensAt (here.advance (l.gap ++ l.text)) ls) = some use)
    (h : repairLexemes? catalog template.statements (analyze catalog template) use = some (new, more)) :
    l.kind = .identifier ∧ IsRenaming l new more ∧ (more = [] ↔ (splitMembers ls).1 = []) := by
  obtain ⟨entry, mapping, names, he, hsymbol, hmapping, hnames, rfl, rfl⟩ := repairLexemes?_cases h
  obtain ⟨-, hpath, hall⟩ := repairNames?_cases hnames
  obtain ⟨hkind, -, -, rfl⟩ := useAt?_eq_some_iff.1 hu
  replace hkind : l.kind = .identifier := hkind
  have hspelled := hl l (by simp)
  rw [hkind] at hspelled
  obtain ⟨digits, hnew, hdigits⟩ := (planned_analyze catalog template).newSymbol_eq he
  have hold : entry.symbol.toList = l.text := by
    rw [hsymbol]
    exact String.toList_ofList
  rw [hold] at hnew
  have hname : ∀ n ∈ names, IsName n := by
    intro n hn
    rcases hall n hn with rfl | ⟨key, hkey⟩ | hmem
    · exact ⟨'o', "utputs".toList, rfl, by decide, List.all_eq_true.1 (by decide)⟩
    · exact isName_of_isIdentifier ((tables_of_fault (hc _ _ hmapping)).2.1 _ hkey)
    · obtain ⟨t, ht, rfl⟩ := List.mem_map.1 hmem
      exact isName_of_mem_memberTokens (fun m hm => hl m (List.mem_cons_of_mem _ hm)) ht
  refine ⟨hkind, ⟨rfl, ⟨_, hnew, isNamePart_ending hdigits⟩, isMembers_memberLexemes names,
    spelled_memberLexemes hname⟩, ?_⟩
  have hmore : memberLexemes names = [] ↔ names = [] := by cases names <;> simp [memberLexemes]
  rw [hmore, hpath]
  simp only [SymbolUse.at, List.map_eq_nil_iff]
  exact memberTokens_eq_nil_iff

/-- The changes that repair references rename. -/
theorem renames_useChanges {catalog : ModuleCatalog} {template : ScannedTemplate} (hc : IsChecked catalog)
    {symbols : List String} {before : List Token} {here : Cursor} {ls : List Lexeme}
    (hl : ∀ l ∈ ls, IsSpelled l.kind l.text) :
    ∀ c ∈ useChanges symbols (repairLexemes? catalog template.statements (analyze catalog template)) before here ls,
      c.Renames := by
  generalize hr : repairLexemes? catalog template.statements (analyze catalog template) = replace
  fun_induction useChanges symbols replace before here ls with
  | case1 => simp
  | case2 before here l ls t next hn ih =>
    intro c hmem
    rcases List.mem_cons.1 hmem with rfl | hmem
    · trivial
    · exact ih (fun m hm => hl m (List.mem_cons_of_mem _ hm)) c hmem
  | case3 before here l ls t next new more hn members _ ih =>
    intro c hmem
    rcases List.mem_cons.1 hmem with rfl | hmem
    · obtain ⟨use, hu, hnew⟩ := Option.bind_eq_some_iff.1 hn
      rw [← hr] at hnew
      obtain ⟨hk, hrenaming, hmore⟩ := isRenaming_repair hc hl hu hnew
      exact ⟨hk, isMembers_splitMembers ls, hrenaming, hmore⟩
    · refine ih (fun m hm => hl m (List.mem_cons_of_mem _ ?_)) c hmem
      rw [← splitMembers_append ls]
      exact List.mem_append_right _ hm

end BicepMigration.Migration
