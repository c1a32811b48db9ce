import BicepMigration.Proofs.Migration.ScannableArtifacts
import BicepMigration.Proofs.Template.Headings

/-!
# Symbols of modules are new

A declaration is a word and the name after it. The symbols of the statements are the names of all declarations but
those of types and functions, which are read as other statements and have no symbol. The symbols of the modules avoid
the symbols of the statements and one another. So they are new except for the names of types and functions.
-/

namespace BicepMigration.Template

/-- The declaring word that tokens start with, and the name after it. -/
def declaredAt : List Token → Option (String × String)
  | keyword :: name :: _ =>
    if keyword.kind = .identifier ∧ keyword.text ∈ declaringWords ∧ name.kind = .identifier then
      some (keyword.text, name.text)
    else none
  | _ => none

/-- The declarations of a template, in order: words with the names that they declare. -/
def ScannedTemplate.declarations (template : ScannedTemplate) : List (String × String) :=
  (keywordTails template.source template.tokens).filterMap declaredAt

variable {source : String} {toks : List Token} {word name : String}

/-- What is declared is a name after a declaring keyword. -/
theorem exists_of_declaredAt (h : declaredAt toks = some (word, name)) :
    ∃ t u rest, toks = t :: u :: rest ∧ t.kind = .identifier ∧ t.text = word ∧ word ∈ declaringWords ∧
      u.kind = .identifier ∧ u.text = name := by
  unfold declaredAt at h
  split at h
  · next t u rest =>
    split at h
    · next hall =>
      obtain ⟨ht, hword, hu⟩ := hall
      simp only [Option.some.injEq, Prod.mk.injEq] at h
      obtain ⟨rfl, rfl⟩ := h
      exact ⟨t, u, rest, rfl, ht, rfl, hword, hu, rfl⟩
    · simp at h
  · simp at h

/-- A declaring word announces what is declared, unless that is a type or a function. -/
theorem kindAt_ne_other {t : Token} {ts : List Token} (ht : t.kind = .identifier) (hw : t.text ∈ declaringWords)
    (htype : t.text ≠ "type") (hfunc : t.text ≠ "func") : kindAt (t :: ts) ≠ .other := by
  have hcases : t.text = "param" ∨ t.text = "var" ∨ t.text = "resource" ∨ t.text = "module" ∨ t.text = "output" := by
    simp only [declaringWords, List.mem_cons, List.not_mem_nil, or_false] at hw
    tauto
  unfold kindAt
  rcases hcases with h | h | h | h | h <;> simp [Token.isWord, ht, h]

/-- A name that is declared is the symbol of its statement, types and functions apart. -/
theorem symbol_of_declaredAt (h : declaredAt toks = some (word, name)) (htype : word ≠ "type")
    (hfunc : word ≠ "func") : (readStatementBody source toks).1.symbol = some name := by
  obtain ⟨t, u, rest, rfl, ht, rfl, hw, hu, rfl⟩ := exists_of_declaredAt h
  rw [symbol_readStatementBody, if_neg (kindAt_ne_other ht hw htype hfunc), nameAt, if_pos hu]

/-- The statements are read from their keywords on, one by one. -/
theorem forall₂_keywordTails (source : String) (toks : List Token) :
    List.Forall₂ (fun s tail => s.heading = headingAt source tail) (readStatements source toks)
      (keywordTails source toks) := by
  fun_induction keywordTails source toks with
  | case1 toks h =>
    rw [readStatements]
    split
    · exact .nil
    · next hcons =>
      rw [h] at hcons
      cases hcons
  | case2 toks first others h _ _ ih =>
    rw [readStatements]
    split
    · next hnil =>
      rw [h] at hnil
      cases hnil
    · next hcons =>
      rw [h] at hcons
      obtain ⟨rfl, rfl⟩ := List.cons.inj hcons
      exact .cons (heading_readStatement ..) ih

/-- What follows an announced keyword is read as a statement of the template. -/
theorem symbol_mem_of_mem_keywordTails (source : String) (toks : List Token) {tail : List Token}
    (ht : tail ∈ keywordTails source toks) :
    ∃ s ∈ readStatements source toks, s.symbol = (readStatementBody source tail).1.symbol := by
  have hall := forall₂_keywordTails source toks
  generalize readStatements source toks = ss, keywordTails source toks = tails at hall ht ⊢
  induction hall with
  | nil => cases ht
  | @cons s _ ss _ hheading _ ih =>
    rcases List.mem_cons.1 ht with rfl | ht
    · exact ⟨s, List.mem_cons_self, congrArg (·.symbol) hheading⟩
    · obtain ⟨t, hmem, hsymbol⟩ := ih ht
      exact ⟨t, List.mem_cons_of_mem s hmem, hsymbol⟩

/-- A declared name is the symbol of a statement, unless it names a type or a function. -/
theorem ScannedTemplate.name_mem_symbols {template : ScannedTemplate} (h : scan source = .ok template)
    (hd : (word, name) ∈ template.declarations) (htype : word ≠ "type") (hfunc : word ≠ "func") :
    name ∈ template.statements.filterMap (·.symbol) := by
  obtain ⟨l, -, rfl⟩ := scan_eq_ok_iff.1 h
  obtain ⟨tail, ht, htail⟩ := List.mem_filterMap.1 hd
  obtain ⟨s, hs, hsymbol⟩ := symbol_mem_of_mem_keywordTails source l.tokens ht
  exact List.mem_filterMap.2 ⟨s, hs, hsymbol.trans (symbol_of_declaredAt htail htype hfunc)⟩

end BicepMigration.Template

namespace BicepMigration.Migration

open Catalog Template

/-- A template that declares a type with the name that a module would get. -/
def typeSource : String := "type saModule = string\nresource sa 'T/a@2020-01-01' = \x7b\n\x7d\n"

/-- A template in which the first names for a module are taken by a variable and a parameter. -/
def takenSource : String :=
  "var saModule = 1\n@secure()\nparam saModule2 string\nresource sa 'T/a@2020-01-01' = \x7b\n\x7d\n"

/-- The symbols of the modules differ from one another and from all declared names, those of types and functions
apart. -/
theorem newSymbol_fresh (catalog : ModuleCatalog) {source : String} {template : ScannedTemplate}
    (h : scan source = .ok template) :
    (analyze catalog template).plan.Pairwise (fun a b => a.newSymbol ≠ b.newSymbol) ∧
      ∀ e ∈ (analyze catalog template).plan, ∀ word name, (word, name) ∈ template.declarations → word ≠ "type" →
        word ≠ "func" → e.newSymbol ≠ name := by
  obtain ⟨hnot, hpairwise⟩ := (planned_analyze catalog template).newSymbol_not_mem
  refine ⟨hpairwise, fun e he word name hd htype hfunc hname => hnot e he ?_⟩
  rw [hname]
  exact template.name_mem_symbols h hd htype hfunc

/-- A parameter has the second candidate, so the module gets the third one. -/
theorem newSymbol_fresh_taken :
    ∃ e ∈ (analyze (catalogOf accountDocument) (templateOf takenSource)).plan,
      ("param", "saModule2") ∈ (templateOf takenSource).declarations ∧ e.newSymbol = "saModule3" ∧
        e.newSymbol ≠ "saModule2" := by
  have h : scan takenSource = .ok (templateOf takenSource) := scan_eq (by decide +kernel)
  have hd : ("param", "saModule2") ∈ (templateOf takenSource).declarations := by decide +kernel
  have hplan : (analyze (catalogOf accountDocument) (templateOf takenSource)).plan.map (·.newSymbol) = ["saModule3"] := by
    decide +kernel
  obtain ⟨e, he, hnew⟩ := List.mem_map.1 (hplan ▸ List.mem_singleton_self "saModule3")
  exact ⟨e, he, hd, hnew, (newSymbol_fresh _ h).2 e he "param" "saModule2" hd (by decide) (by decide)⟩

/-- A module can get the name of a type. -/
theorem newSymbol_taken_by_type :
    scan typeSource = .ok (templateOf typeSource) ∧ ("type", "saModule") ∈ (templateOf typeSource).declarations ∧
      (analyze (catalogOf accountDocument) (templateOf typeSource)).plan.map (·.newSymbol) = ["saModule"] :=
  ⟨scan_eq (by decide +kernel), by decide +kernel, by decide +kernel⟩

end BicepMigration.Migration
