import Mathlib.Data.List.Forall2
import BicepMigration.Proofs.Migration.SeenPlan
import BicepMigration.Proofs.Template.ReturnedStatements
import BicepMigration.Proofs.Template.TokenWord

/-!
# Templates whose lines end with carriage returns

A template may come with carriage returns before its newlines. It is then read in the same way, and it is analyzed in the
same way too: only offsets in bytes move. The carriage return takes a byte of its line, so the newline itself stands one
column further on. Main statement: all that is read and found is the same, apart from that.
-/

namespace BicepMigration.Migration

open Catalog Template Text

/-- The tokens stand at the same place of a text and of the text with carriage returns. -/
structure SameToken (t t' : Token) : Prop where
  kind : t'.kind = t.kind
  text : withoutReturns t'.text = withoutReturns t.text
  line : t'.line = t.line
  /-- The carriage return before a newline takes a byte. -/
  column : t'.column = if t.kind = .newline then t.column + 1 else t.column

/-- The use without its place in bytes. -/
def withoutSpan (use : SymbolUse) : SymbolUse := { use with span := ⟨0, 0⟩ }

/-- Two analyses say the same, apart from the places of references in bytes. -/
structure SameAnalysis (a a' : Analysis) : Prop where
  plan : a'.plan = a.plan
  rewrites : a'.rewrites = a.rewrites
  diagnostics : a'.diagnostics = a.diagnostics
  references : a'.references.map withoutSpan = a.references.map withoutSpan

variable {source : String}

/-- A token is the same after carriage returns are put before newlines, its place apart. -/
theorem sameToken_returned (t : Token) : SameToken t (t.returned source) := by
  unfold Token.returned
  split
  · next h => exact ⟨rfl, rfl, rfl, (if_pos h).symm⟩
  · next h =>
    refine ⟨rfl, ?_, rfl, (if_neg h).symm⟩
    simp only
    split
    · exact withoutReturns_returned t.text
    · rfl

/-- The template that is read from the text with carriage returns. -/
def returnedTemplate (source : String) (ts : List Token) : ScannedTemplate :=
  ⟨Text.returned source, ts.map (Token.returned source),
    readStatements (Text.returned source) (ts.map (Token.returned source))⟩

/-- A use stands in the same declarations. -/
theorem declares_returned {ss ss' : List Statement}
    (h : ss'.map (Statement.seen .outline) = ss.map (Statement.seen (.returned source))) (entry : PlanEntry)
    (use : SymbolUse) :
    entry.declares ss' (use.placed (returnedPlace source)) = entry.declares ss use := by
  have hget := congrArg (·[entry.statementIndex]?) h
  simp only [List.getElem?_map] at hget
  unfold PlanEntry.declares
  refine congrArg _ ?_
  cases hs' : ss'[entry.statementIndex]? with
  | none =>
    rw [hs', Option.map_none, eq_comm, Option.map_eq_none_iff] at hget
    rw [hget]
    rfl
  | some s' =>
    rw [hs', Option.map_some, eq_comm, Option.map_eq_some_iff] at hget
    obtain ⟨s, hs, hseen⟩ := hget
    have hspan : s'.span = s.span.returned source := (congrArg (·.span) hseen).symm
    rw [hs, Option.any_some, Option.any_some, hspan]
    exact Span.contains_returned source s.span use.span.start

/-- The same is planned, and the same uses have to be repaired. -/
theorem sameAnalysis_returned (catalog : ModuleCatalog) (ts : List Token) :
    SameAnalysis (analyze catalog ⟨source, ts, readStatements source ts⟩)
      (analyze catalog (returnedTemplate source ts)) := by
  have hseen := seen_readStatements (seenAlike_returned source ts)
  have hplanned := @planFrom_eq_of_seen (.returned source) catalog .outline (fun _ => rfl) (fun _ => rfl) _ _ hseen
  have hreferences : (analyze catalog (returnedTemplate source ts)).references =
      (analyze catalog ⟨source, ts, readStatements source ts⟩).references.map
        (SymbolUse.placed (returnedPlace source)) := by
    simp only [analyze, returnedTemplate, hplanned, findUses_returned, List.filter_map]
    refine congrArg (List.map _) (List.filter_congr fun use _ => ?_)
    simp only [Function.comp_apply, declares_returned hseen]
  refine ⟨?_, ?_, ?_, ?_⟩
  · exact congrArg (·.plan) hplanned
  · exact congrArg (·.rewrites) hplanned
  · exact congrArg (·.diagnostics) hplanned
  · rw [hreferences, List.map_map]
    rfl

/-- A template is read and analyzed in the same way if its lines end with carriage returns, apart from places in bytes and
the columns of newlines. -/
theorem tokenize_returned_alike (source : String) :
    (∃ e, tokenize source = .error e ∧ tokenize (Text.returned source) = .error e) ∨
      ∃ template template', scan source = .ok template ∧ scan (Text.returned source) = .ok template' ∧
        tokenize source = .ok template.tokens ∧ tokenize (Text.returned source) = .ok template'.tokens ∧
        List.Forall₂ SameToken template.tokens template'.tokens ∧
        ∀ catalog, SameAnalysis (analyze catalog template) (analyze catalog template') := by
  have hreturned := tokenize_returned source
  cases h : tokenize source with
  | error e =>
    rw [h] at hreturned
    exact .inl ⟨e, rfl, hreturned⟩
  | ok ts =>
    rw [h] at hreturned
    refine .inr ⟨⟨source, ts, readStatements source ts⟩, returnedTemplate source ts, ?_, ?_, rfl, hreturned, ?_,
      fun catalog => sameAnalysis_returned catalog ts⟩
    · rw [scan, h]
      rfl
    · rw [scan, hreturned]
      rfl
    · exact List.forall₂_map_right_iff.2 (List.forall₂_same.2 fun t _ => sameToken_returned t)

/-- The carriage return of an empty line moves the column of its newline. -/
theorem column_of_returned_newline :
    '\r' ∉ "\n".toList ∧ tokenize "\n" = .ok [⟨.newline, "\n", ⟨0, 1⟩, 1, 1⟩] ∧
      tokenize (Text.returned "\n") = .ok [⟨.newline, "\n", ⟨1, 2⟩, 1, 2⟩] := by
  refine ⟨by decide, (tokenize_eq (by decide +kernel)).trans ?_, (tokenize_eq (by decide +kernel)).trans ?_⟩
  · decide +kernel
  · decide +kernel

end BicepMigration.Migration
