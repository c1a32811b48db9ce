import Mathlib.Data.Finset.Card
import Mathlib.Data.Finset.Image
import BicepMigration.Proofs.Migration.Names
import BicepMigration.Proofs.Migration.Planned

/-!
# Symbols that are derived

Names are tried for the module of a resource: the symbol of the resource with `Module` after it, and then that name with
the numbers from two on. No two of these names are alike, so one of them is free as soon as there are more of them than
taken names. The numbers come from a counter of 32 bits, so the search ends at the first free name if that one has a
number below the largest one of the counter; if it has none, the program stops there or tries negative numbers. Main
statement: in the first case the derived symbol is the first free name, and symbols that are derived one after another
differ from one another and from all that were taken before.
-/

namespace BicepMigration.Migration

open Catalog Template

section First

variable {overflow : Overflow} {old : String} {taken : List String} {n : Nat}

/-- Names that come before a free one are taken, so there are not more of them than taken names. -/
theorem le_card_of_forall_mem (hbefore : ∀ m < n, candidate old m ∈ taken) : n ≤ taken.toFinset.card := by
  have hsubset : (Finset.range n).image (candidate old) ⊆ taken.toFinset := by
    intro name hname
    obtain ⟨m, hm, rfl⟩ := Finset.mem_image.1 hname
    exact List.mem_toFinset.2 (hbefore m (Finset.mem_range.1 hm))
  have hcard := Finset.card_le_card hsubset
  rwa [Finset.card_image_of_injective _ fun _ _ => candidate_inj, Finset.card_range] at hcard

/-- A candidate is free whose number comes before the largest one of the counter. -/
def LeavesCandidate (old : String) (taken : List String) : Prop := ∃ n < 2147483646, candidate old n ∉ taken

/-- Too few names are taken for all candidates that the counter gets to. -/
theorem leavesCandidate_of_card_lt (h : taken.toFinset.card < 2147483646) (old : String) :
    LeavesCandidate old taken := by
  obtain ⟨n, -, hfree, hbefore⟩ := exists_first_candidate old taken
  exact ⟨n, (le_card_of_forall_mem hbefore).trans_lt h, hfree⟩

/-- The symbol for a module is found by a search, and it is the first free name. -/
structure FindsFirstFree (overflow : Overflow) (old : String) (taken : List String) : Prop where
  /-- The search ends with the symbol as soon as it may try as many numbers as there are taken names. -/
  found : ∀ tries, taken.toFinset.card ≤ tries →
    overflow.deriveSymbol? tries old taken = some (deriveSymbol old taken)
  /-- The name is free. -/
  free : deriveSymbol old taken ∉ taken
  /-- All names before it are taken. -/
  first : ∃ n < 2147483646, deriveSymbol old taken = candidate old n ∧ ∀ m < n, candidate old m ∈ taken

/-- Where the counter gets to a free name, the first one is found. -/
theorem LeavesCandidate.findsFirstFree (h : LeavesCandidate old taken) (overflow : Overflow) :
    FindsFirstFree overflow old taken := by
  obtain ⟨n, -, hfree, hbefore⟩ := exists_first_candidate old taken
  have hsymbol := deriveSymbol_eq_candidate hfree hbefore
  have hn : n < 2147483646 := by
    obtain ⟨m, hm, hother⟩ := h
    exact lt_of_le_of_lt (Nat.le_of_not_lt fun hlt => hother (hbefore m hlt)) hm
  refine ⟨fun tries htries => ?_, deriveSymbol_not_mem old taken, n, hn, hsymbol, hbefore⟩
  rw [hsymbol]
  exact Overflow.deriveSymbol?_of_first hn hfree hbefore ((le_card_of_forall_mem hbefore).trans htries)

end First

/-- The symbols for the modules of resources, one after another. Each is taken for those after it. -/
def deriveSymbols (taken : List String) : List String → List String
  | [] => []
  | old :: rest => deriveSymbol old taken :: deriveSymbols (deriveSymbol old taken :: taken) rest

/-- Searches for the symbols of modules, one after another. Each is taken for those after it. -/
def Overflow.deriveSymbols? (overflow : Overflow) (tries : Nat) (taken : List String) :
    List String → Option (List String)
  | [] => some []
  | old :: rest => do
    let name ← overflow.deriveSymbol? tries old taken
    let names ← overflow.deriveSymbols? tries (name :: taken) rest
    some (name :: names)

section Series

variable {overflow : Overflow} {taken olds names : List String} {tries : Nat}

/-- Symbols that are found one after another are not taken, and no two of them are alike. -/
theorem fresh_of_deriveSymbols? (h : overflow.deriveSymbols? tries taken olds = some names) :
    names.Nodup ∧ ∀ name ∈ names, name ∉ taken := by
  -- what is found for the rest avoids the symbol before it, because that one is taken then
  induction olds generalizing taken names with
  | nil =>
    obtain rfl := Option.some.inj h
    exact ⟨.nil, fun name hname => absurd hname List.not_mem_nil⟩
  | cons old rest ih =>
    obtain ⟨first, hfirst, h⟩ := Option.bind_eq_some_iff.1 h
    obtain ⟨others, hothers, h⟩ := Option.bind_eq_some_iff.1 h
    obtain rfl := Option.some.inj h
    obtain ⟨hnodup, hfree⟩ := ih hothers
    refine ⟨List.nodup_cons.2 ⟨fun hmem => hfree _ hmem List.mem_cons_self, hnodup⟩, fun name hname => ?_⟩
    rcases List.mem_cons.1 hname with rfl | hname
    · exact Overflow.not_mem_of_deriveSymbol? hfirst
    · exact fun htaken => hfree name hname (List.mem_cons_of_mem _ htaken)

/-- All symbols are found if the names that are taken in the end do not make the counter overflow. -/
theorem deriveSymbols?_eq (hcard : taken.toFinset.card + olds.length ≤ 2147483646)
    (htries : taken.toFinset.card + olds.length ≤ tries) :
    overflow.deriveSymbols? tries taken olds = some (deriveSymbols taken olds) := by
  induction olds generalizing taken with
  | nil => rfl
  | cons old rest ih =>
    rw [List.length_cons] at hcard htries
    have hleaves : LeavesCandidate old taken := leavesCandidate_of_card_lt (by omega) old
    have hfound := (hleaves.findsFirstFree overflow).found tries (by omega)
    have hmore : (deriveSymbol old taken :: taken).toFinset.card ≤ taken.toFinset.card + 1 := by
      rw [List.toFinset_cons]
      exact Finset.card_insert_le _ _
    rw [Overflow.deriveSymbols?, hfound, Option.bind_eq_bind, Option.bind_some, ih (by omega) (by omega)]
    rfl

end Series

/-- The symbols of the modules of a plan are derived one after another. -/
theorem Planned.newSymbols_eq {catalog : ModuleCatalog} {taken : List String} {index : Nat} {ss : List Statement}
    {plan : List PlanEntry} (h : Planned catalog taken index ss plan) :
    plan.map (·.newSymbol) = deriveSymbols taken (plan.map (·.symbol)) := by
  induction h with
  | done => rfl
  | skip _ ih => exact ih
  | @entry taken _ _ _ _ symbol _ _ _ _ _ _ _ ih => exact congrArg (deriveSymbol symbol taken :: ·) ih

/-- The search for a symbol gives nothing but a free name. It gives the first one if the counter gets there, and with a
counter that is checked it gives nothing otherwise. Searches one after another, as for a plan, give the first names that
are free if those that are taken in the end are few enough, and what they give differs from one another and from all
names that were taken. -/
theorem deriveSymbol_first_free (overflow : Overflow) (taken : List String) :
    (∀ old, LeavesCandidate old taken → FindsFirstFree overflow old taken) ∧
      (∀ old, ¬ LeavesCandidate old taken → ∀ tries, Overflow.checked.deriveSymbol? tries old taken = none) ∧
      (taken.toFinset.card < 2147483646 → ∀ old, LeavesCandidate old taken) ∧
      (∀ tries old name, overflow.deriveSymbol? tries old taken = some name → name ∉ taken) ∧
      (∀ olds, taken.toFinset.card + olds.length ≤ 2147483646 → ∀ tries, taken.toFinset.card + olds.length ≤ tries →
        overflow.deriveSymbols? tries taken olds = some (deriveSymbols taken olds)) ∧
      (∀ tries olds names, overflow.deriveSymbols? tries taken olds = some names →
        names.Nodup ∧ ∀ name ∈ names, name ∉ taken) ∧
      ∀ catalog index ss, (planFrom catalog taken index ss).plan.map (·.newSymbol) =
        deriveSymbols taken ((planFrom catalog taken index ss).plan.map (·.symbol)) :=
  ⟨fun _ h => h.findsFirstFree overflow, fun _ h _ => Overflow.deriveSymbol?_checked_eq_none fun n hn =>
      not_not.1 fun hfree => h ⟨n, hn, hfree⟩, leavesCandidate_of_card_lt, fun _ _ _ => Overflow.not_mem_of_deriveSymbol?,
    fun _ hcard _ => deriveSymbols?_eq hcard, fun _ _ _ => fresh_of_deriveSymbols?, fun catalog index ss =>
      (planned_planFrom catalog taken index ss).newSymbols_eq⟩

/-- With two names taken the searches give the third one, the fourth one, and a first one. -/
theorem deriveSymbol_first_free_numbered :
    LeavesCandidate "sa" ["saModule", "saModule2"] ∧ FindsFirstFree .wrapping "sa" ["saModule", "saModule2"] ∧
      ["saModule", "saModule2"].toFinset.card + ["sa", "sa", "saModule"].length ≤ 2147483646 ∧
      Overflow.wrapping.deriveSymbols? 5 ["saModule", "saModule2"] ["sa", "sa", "saModule"] =
        some ["saModule3", "saModule4", "saModuleModule"] := by
  have hcard : ["saModule", "saModule2"].toFinset.card = 2 := by decide
  have hfew : ["saModule", "saModule2"].toFinset.card + ["sa", "sa", "saModule"].length = 5 := by rw [hcard]; rfl
  obtain ⟨hfirst, -, hleaves, -, hseries, -⟩ := deriveSymbol_first_free .wrapping ["saModule", "saModule2"]
  have hsa := hleaves (by omega) "sa"
  refine ⟨hsa, hfirst "sa" hsa, by omega, (hseries _ (by omega) 5 (by omega)).trans ?_⟩
  decide

/-- The first candidates for the module of a resource. -/
def candidates (old : String) (count : Nat) : List String := (List.range count).map (candidate old)

/-- The first candidates are those with smaller numbers. -/
theorem candidate_mem_candidates {old : String} {n count : Nat} : candidate old n ∈ candidates old count ↔ n < count := by
  constructor
  · intro h
    obtain ⟨m, hm, heq⟩ := List.mem_map.1 h
    rw [← candidate_inj heq]
    exact List.mem_range.1 hm
  · exact fun h => List.mem_map_of_mem (List.mem_range.2 h)

/-- Candidates are written with digits only. -/
theorem candidate_ne_negative (n : Nat) : candidate "sa" n ≠ "saModule-2147483648" := by
  intro heq
  obtain ⟨digits, htext, hdigits⟩ := numbered_eq "sa" (n + 1)
  have hsign : digits = "-2147483648".toList := by
    have hlist := htext.symm.trans (congrArg String.toList heq)
    simpa using hlist
  exact absurd (hdigits '-' (by simp [hsign])) (by decide)

/-- A counter that wraps around goes on with the smallest number. -/
theorem exists_search?_wrapping {base : String} {taken : List String}
    (h : ∀ m, 2 ≤ m → m < 2147483648 → base ++ toString m ∈ taken) (hfree : base ++ "-2147483648" ∉ taken) :
    ∃ tries, Overflow.wrapping.search? base taken tries 2 = some (base ++ "-2147483648") := by
  obtain ⟨count, hcount⟩ : ∃ count, 2 + count = 2147483647 := ⟨2147483645, rfl⟩
  have hskip := @Overflow.search?_of_forall_mem .wrapping base taken 2 2 count (by omega) fun m hle hlt =>
    h m hle (by omega)
  have hlast : taken.contains (base ++ toString (Int32.ofNat 2147483647)) = true :=
    List.contains_iff_mem.2 (h 2147483647 (by decide) (by decide))
  have hnext : ¬ taken.contains (base ++ toString (Int32.ofNat 2147483647 + 1)) = true := fun hmem =>
    hfree (List.contains_iff_mem.1 hmem)
  refine ⟨2 + count, hskip.trans ?_⟩
  rw [hcount, Overflow.search?, Overflow.next?, Option.bind_eq_bind, Option.bind_some]
  simp only [hlast, if_true]
  rw [Overflow.search?, Overflow.next?, Option.bind_eq_bind, Option.bind_some]
  simp only [hnext, Bool.false_eq_true, if_false]
  rfl

/-- With these names taken a counter that is checked stops the program, and one that wraps around goes on with a name
that is no candidate. -/
theorem counter_overflows :
    (∀ tries, Overflow.checked.deriveSymbol? tries "sa" (candidates "sa" 2147483647) = none) ∧
      (∃ tries, Overflow.wrapping.deriveSymbol? tries "sa" (candidates "sa" 2147483647) = some "saModule-2147483648") ∧
      (∀ n, candidate "sa" n ≠ "saModule-2147483648") ∧ candidate "sa" 2147483647 = "saModule2147483648" ∧
      candidate "sa" 2147483647 ∉ candidates "sa" 2147483647 := by
  have hmem {n : Nat} (h : n < 2147483647) : candidate "sa" n ∈ candidates "sa" 2147483647 :=
    candidate_mem_candidates.2 h
  have hbase : (candidates "sa" 2147483647).contains ("sa" ++ "Module") = true :=
    List.contains_iff_mem.2 (hmem (n := 0) (by decide))
  obtain ⟨tries, htries⟩ := @exists_search?_wrapping ("sa" ++ "Module") (candidates "sa" 2147483647)
    (fun m hle hlt => by
      obtain ⟨m, rfl⟩ := Nat.exists_eq_add_of_le' hle
      rw [← candidate_succ]
      exact hmem (by omega))
    fun h => by
      obtain ⟨n, -, heq⟩ := List.mem_map.1 h
      exact candidate_ne_negative n heq
  refine ⟨fun tries => Overflow.deriveSymbol?_checked_eq_none fun n hn => hmem (by omega), ⟨tries, ?_⟩,
    candidate_ne_negative, rfl, fun h => absurd (candidate_mem_candidates.1 h) (Nat.lt_irrefl _)⟩
  simp only [Overflow.deriveSymbol?, hbase, if_true]
  exact htries

end BicepMigration.Migration
