/-!
# Symbols of modules

The module for a resource gets the symbol of the resource with `Module` after it, and if that is taken the same name
with a number from two on. The numbers come from a counter of 32 bits with a sign. What becomes of a counter that
overflows depends on how the program is built, and before that it does not matter. Main statement: the derived symbol is
the first free name.
-/

namespace BicepMigration.Migration

/-- The name with a number: the name itself stands for the number one. -/
def numbered (base : String) (n : Nat) : String :=
  if n ≤ 1 then base else base ++ toString n

/-- The names that are tried for the module of a resource, in order. -/
def candidate (old : String) (n : Nat) : String := numbered (old ++ "Module") (n + 1)

/-- What a counter does that goes beyond its largest number: it stops the program, or it goes on with the smallest
number. -/
inductive Overflow where
  | checked
  | wrapping
  deriving DecidableEq, Repr

namespace Overflow

/-- The number after another one, if the program goes on. -/
def next? : Overflow → Int32 → Option Int32
  | checked, n => if n = Int32.maxValue then none else some (n + 1)
  | wrapping, n => some (n + 1)

/-- Searches for a number that makes a free name, from a number on and with a bound on the tries. The counter goes on
before the name is looked at. -/
def search? (overflow : Overflow) (base : String) (taken : List String) : Nat → Int32 → Option String
  | 0, _ => none
  | tries + 1, n => do
    let after ← overflow.next? n
    let name := base ++ toString n
    if taken.contains name then overflow.search? base taken tries after else some name

/-- Searches for the symbol of a module, with a bound on the numbers that are tried. -/
def deriveSymbol? (overflow : Overflow) (tries : Nat) (old : String) (taken : List String) : Option String :=
  let base := old ++ "Module"
  if taken.contains base then overflow.search? base taken tries 2 else some base

end Overflow

/-- The first candidate that is not taken. One more than there are taken names is enough. -/
def firstCandidate (old : String) (taken : List String) : String :=
  (((List.range (taken.length + 1)).map (candidate old)).find? fun name => !taken.contains name).getD (candidate old 0)

/-- The module symbol for a resource symbol. As many numbers are tried as there are taken names. Where the counter
overflows, which takes more than two thousand million of these, the numbers go on here. -/
def deriveSymbol (old : String) (taken : List String) : String :=
  (Overflow.checked.deriveSymbol? taken.length old taken).getD (firstCandidate old taken)

/-- Different numbers make different names. -/
theorem numbered_injective {base : String} {m n : Nat} (hm : 1 ≤ m) (hn : 1 ≤ n)
    (h : numbered base m = numbered base n) : m = n := by
  unfold numbered at h
  split at h <;> split at h
  · omega
  · have := congrArg String.length h
    simp only [String.length_append] at this
    have h0 : (toString n).length ≠ 0 := by
      simp [Nat.toString_eq_repr, Nat.repr]
    omega
  · have := congrArg String.length h
    simp only [String.length_append] at this
    have h0 : (toString m).length ≠ 0 := by
      simp [Nat.toString_eq_repr, Nat.repr]
    omega
  · have hr := congrArg String.toList ((String.append_right_inj base).1 h)
    rw [← Nat.ofDigitChars_ten_toDigits (n := m), ← Nat.ofDigitChars_ten_toDigits (n := n)]
    simp only [Nat.toString_eq_repr, Nat.repr, String.toList_ofList] at hr
    rw [hr]

/-- No two candidates are alike. -/
theorem candidate_inj {old : String} {m n : Nat} (h : candidate old m = candidate old n) : m = n :=
  Nat.succ.inj (numbered_injective (Nat.succ_pos m) (Nat.succ_pos n) h)

section Counter

variable {overflow : Overflow} {base : String} {taken : List String} {k tries : Nat}

/-- A number that fits into the counter is written as it is. -/
theorem toString_ofNat (h : k < 2147483648) : toString (Int32.ofNat k) = toString k := by
  have hint : (Int32.ofNat k).toInt = k := Int32.toInt_ofNat_of_lt h
  change toString (Int32.ofNat k).toInt = toString k
  rw [hint]
  rfl

/-- Below its largest number the counter goes on. -/
theorem Overflow.next?_ofNat (overflow : Overflow) (h : k < 2147483647) :
    overflow.next? (.ofNat k) = some (.ofNat (k + 1)) := by
  cases overflow with
  | checked =>
    have hne : Int32.ofNat k ≠ Int32.maxValue := by
      intro heq
      have hint := congrArg Int32.toInt heq
      rw [Int32.toInt_ofNat_of_lt (by omega), Int32.toInt_maxValue] at hint
      omega
    rw [next?, if_neg hne, Int32.ofNat_add]
    rfl
  | wrapping =>
    rw [next?, Int32.ofNat_add]
    rfl

namespace Overflow

/-- A name that is taken is passed over. -/
theorem search?_of_mem (h : k < 2147483647) (hmem : base ++ toString k ∈ taken) :
    overflow.search? base taken (tries + 1) (.ofNat k) = overflow.search? base taken tries (.ofNat (k + 1)) := by
  have hcontains : taken.contains (base ++ toString k) = true := List.contains_iff_mem.2 hmem
  rw [search?, overflow.next?_ofNat h, toString_ofNat (Nat.lt_succ_of_lt h)]
  simp only [Option.bind_eq_bind, Option.bind_some, hcontains, if_true]

/-- A free name is found. -/
theorem search?_of_not_mem (h : k < 2147483647) (hfree : base ++ toString k ∉ taken) :
    overflow.search? base taken (tries + 1) (.ofNat k) = some (base ++ toString k) := by
  have hcontains : ¬ taken.contains (base ++ toString k) = true := fun hmem => hfree (List.contains_iff_mem.1 hmem)
  rw [search?, overflow.next?_ofNat h, toString_ofNat (Nat.lt_succ_of_lt h)]
  simp only [Option.bind_eq_bind, Option.bind_some, hcontains, Bool.false_eq_true, if_false]

/-- The search goes over all names that are taken. -/
theorem search?_of_forall_mem {count : Nat} (hcount : k + count ≤ 2147483647)
    (h : ∀ m, k ≤ m → m < k + count → base ++ toString m ∈ taken) :
    overflow.search? base taken (tries + count) (.ofNat k) = overflow.search? base taken tries (.ofNat (k + count)) := by
  induction count generalizing k with
  | zero => rfl
  | succ count ih =>
    rw [← Nat.add_assoc, search?_of_mem (by omega) (h k (Nat.le_refl k) (by omega)),
      ih (by omega) fun m hle hlt => h m (by omega) (by omega), Nat.add_right_comm, Nat.add_assoc]

/-- What is found is free. -/
theorem not_mem_of_search? {n : Int32} {name : String} (h : overflow.search? base taken tries n = some name) :
    name ∉ taken := by
  induction tries generalizing n with
  | zero => cases h
  | succ tries ih =>
    obtain ⟨after, -, hname⟩ := Option.bind_eq_some_iff.1 h
    simp only at hname
    split at hname
    · exact ih hname
    · next hfree =>
      obtain rfl := Option.some.inj hname
      exact fun hmem => hfree (List.contains_iff_mem.2 hmem)

/-- A counter that is checked finds nothing behind names that are all taken. -/
theorem search?_checked_eq_none (hk : k ≤ 2147483647)
    (h : ∀ m, k ≤ m → m < 2147483647 → base ++ toString m ∈ taken) : checked.search? base taken tries (.ofNat k) = none := by
  induction tries generalizing k with
  | zero => rfl
  | succ tries ih =>
    rcases Nat.lt_or_eq_of_le hk with hlt | rfl
    · rw [search?_of_mem hlt (h k (Nat.le_refl k) hlt)]
      exact ih hlt fun m hle => h m (by omega)
    · rfl

end Overflow

end Counter

section Derived

variable {overflow : Overflow} {old : String} {taken : List String} {n tries : Nat}

/-- After the first candidate there are those with the numbers from two on. -/
theorem candidate_succ (old : String) (n : Nat) : candidate old (n + 1) = old ++ "Module" ++ toString (n + 2) := by
  rw [candidate, numbered, if_neg (by omega)]

namespace Overflow

/-- The search ends at the first candidate that is free, if the counter gets there. -/
theorem deriveSymbol?_of_first (hn : n < 2147483646) (hfree : candidate old n ∉ taken)
    (hbefore : ∀ m < n, candidate old m ∈ taken) (htries : n ≤ tries) :
    overflow.deriveSymbol? tries old taken = some (candidate old n) := by
  cases n with
  | zero =>
    have hcontains : ¬ taken.contains (old ++ "Module") = true := fun hmem => hfree (List.contains_iff_mem.1 hmem)
    simp only [deriveSymbol?, hcontains, Bool.false_eq_true, if_false]
    rfl
  | succ n =>
    have hcontains : taken.contains (old ++ "Module") = true :=
      List.contains_iff_mem.2 (hbefore 0 (Nat.succ_pos n))
    obtain ⟨more, rfl⟩ := Nat.exists_eq_add_of_le htries
    have htaken : ∀ m, 2 ≤ m → m < 2 + n → old ++ "Module" ++ toString m ∈ taken := fun m hle hlt => by
      obtain ⟨m, rfl⟩ := Nat.exists_eq_add_of_le' hle
      rw [← candidate_succ]
      exact hbefore (m + 1) (by omega)
    rw [candidate_succ] at hfree ⊢
    simp only [deriveSymbol?, hcontains, if_true]
    have hskip := @search?_of_forall_mem overflow (old ++ "Module") taken 2 (more + 1) n (by omega) htaken
    rw [show n + 1 + more = more + 1 + n by omega]
    refine hskip.trans ?_
    rw [Nat.add_comm 2 n]
    exact search?_of_not_mem (by omega) hfree

/-- The derived symbol is free. -/
theorem not_mem_of_deriveSymbol? {name : String} (h : overflow.deriveSymbol? tries old taken = some name) :
    name ∉ taken := by
  simp only [deriveSymbol?] at h
  split at h
  · exact not_mem_of_search? h
  · next hfree =>
    obtain rfl := Option.some.inj h
    exact fun hmem => hfree (List.contains_iff_mem.2 hmem)

/-- A counter that is checked overflows if all candidates before are taken. -/
theorem deriveSymbol?_checked_eq_none (h : ∀ m < 2147483646, candidate old m ∈ taken) :
    checked.deriveSymbol? tries old taken = none := by
  have hcontains : taken.contains (old ++ "Module") = true := List.contains_iff_mem.2 (h 0 (by decide))
  simp only [deriveSymbol?, hcontains, if_true]
  refine search?_checked_eq_none (k := 2) (by decide) fun m hle hlt => ?_
  obtain ⟨m, rfl⟩ := Nat.exists_eq_add_of_le' hle
  rw [← candidate_succ]
  exact h (m + 1) (by omega)

end Overflow

/-- A candidate is free before there are more candidates than taken names. -/
theorem exists_first_candidate (old : String) (taken : List String) :
    ∃ n ≤ taken.length, candidate old n ∉ taken ∧ ∀ m < n, candidate old m ∈ taken := by
  have hall : ¬ ((List.range (taken.length + 1)).map (candidate old)) ⊆ taken := fun hsubset => by
    have hnodup : ((List.range (taken.length + 1)).map (candidate old)).Nodup :=
      List.Pairwise.map _ (fun m n hne heq => hne (candidate_inj heq)) List.nodup_range
    have hlength := hnodup.length_le_of_subset hsubset
    rw [List.length_map, List.length_range] at hlength
    omega
  cases hfound : (List.range (taken.length + 1)).find? fun n => !taken.contains (candidate old n) with
  | none =>
    refine absurd (fun name hname => ?_) hall
    obtain ⟨n, hn, rfl⟩ := List.mem_map.1 hname
    simpa using List.find?_eq_none.1 hfound n hn
  | some n =>
    obtain ⟨hfree, hn, hbefore⟩ := List.find?_range_eq_some.1 hfound
    exact ⟨n, Nat.le_of_lt_succ (List.mem_range.1 hn), by simpa using hfree, fun m hm => by simpa using hbefore m hm⟩

/-- There is one first candidate that is free. -/
theorem eq_of_first_candidate {m : Nat} (hfree : candidate old n ∉ taken) (hbefore : ∀ i < n, candidate old i ∈ taken)
    (hfree' : candidate old m ∉ taken) (hbefore' : ∀ i < m, candidate old i ∈ taken) : m = n := by
  rcases Nat.lt_trichotomy m n with hlt | heq | hlt
  · exact absurd (hbefore m hlt) hfree'
  · exact heq
  · exact absurd (hbefore' n hlt) hfree

/-- The search without a counter finds the first candidate that is free. -/
theorem firstCandidate_eq (hn : n ≤ taken.length) (hfree : candidate old n ∉ taken)
    (hbefore : ∀ m < n, candidate old m ∈ taken) : firstCandidate old taken = candidate old n := by
  have hfound : (List.range (taken.length + 1)).find? ((fun name => !taken.contains name) ∘ candidate old) = some n := by
    rw [List.find?_range_eq_some]
    refine ⟨by simpa using hfree, List.mem_range.2 (Nat.lt_succ_of_le hn), fun m hm => ?_⟩
    simpa using hbefore m hm
  rw [firstCandidate, List.find?_map, hfound]
  rfl

/-- The derived symbol is the first candidate that is free. -/
theorem deriveSymbol_eq_candidate (hfree : candidate old n ∉ taken) (hbefore : ∀ m < n, candidate old m ∈ taken) :
    deriveSymbol old taken = candidate old n := by
  obtain ⟨m, hm, hfree', hbefore'⟩ := exists_first_candidate old taken
  obtain rfl := eq_of_first_candidate hfree hbefore hfree' hbefore'
  unfold deriveSymbol
  by_cases hcounted : m < 2147483646
  · rw [Overflow.deriveSymbol?_of_first hcounted hfree hbefore hm, Option.getD_some]
  · rw [Overflow.deriveSymbol?_checked_eq_none fun i hi => hbefore i (by omega), Option.getD_none,
      firstCandidate_eq hm hfree hbefore]

/-- The derived symbol is never taken. -/
theorem deriveSymbol_not_mem (old : String) (taken : List String) : deriveSymbol old taken ∉ taken := by
  obtain ⟨n, -, hfree, hbefore⟩ := exists_first_candidate old taken
  rwa [deriveSymbol_eq_candidate hfree hbefore]

end Derived

end BicepMigration.Migration
