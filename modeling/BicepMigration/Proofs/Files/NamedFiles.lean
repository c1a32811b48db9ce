import BicepMigration.Files.FileTree

/-!
# Files by their names

A path in a directory is walked through the directory first, and its last step goes to the name. So files of one directory
are told apart by their names. Writing a file puts a text where the path leads, changes nothing that stands elsewhere, and
leaves every path leading where it led. Main statement: a file of a directory holds what was written to it, also after
files with other names were written there.
-/

namespace BicepMigration.Files

section Paths

/-- The text can be the name of a file in a path. -/
structure IsFileName (name : String) : Prop where
  slash_not_mem : '/' ∉ name.toList
  ne_empty : name ≠ ""
  ne_here : name ≠ "."
  ne_parent : name ≠ ".."

/-- Every path has a part. -/
theorem slashParts_ne_nil (cs : List Char) : slashParts cs ≠ [] := by
  cases cs with
  | nil => exact List.cons_ne_nil _ _
  | cons c cs =>
    unfold slashParts
    split
    · exact List.cons_ne_nil _ _
    · split <;> exact List.cons_ne_nil _ _

/-- A slash divides the parts before it from the parts after it. -/
theorem slashParts_append_slash (before after : List Char) :
    slashParts (before ++ '/' :: after) = slashParts before ++ slashParts after := by
  induction before with
  | nil => simp [slashParts]
  | cons c cs ih =>
    rw [List.cons_append, slashParts, slashParts, ih]
    split
    · rfl
    · cases hparts : slashParts cs with
      | nil => exact absurd hparts (slashParts_ne_nil cs)
      | cons part parts => rfl

/-- A path without a slash is one part. -/
theorem slashParts_of_not_mem {cs : List Char} (h : '/' ∉ cs) : slashParts cs = [cs] := by
  induction cs with
  | nil => rfl
  | cons c cs ih =>
    rw [List.mem_cons, not_or] at h
    rw [slashParts, if_neg (Ne.symm h.1), ih h.2]

/-- No part has a slash. -/
theorem slash_not_mem_of_mem_slashParts {cs part : List Char} (h : part ∈ slashParts cs) : '/' ∉ part := by
  induction cs generalizing part with
  | nil =>
    obtain rfl := List.mem_singleton.1 h
    exact List.not_mem_nil
  | cons c cs ih =>
    rw [slashParts] at h
    split at h
    · rcases List.mem_cons.1 h with rfl | h
      · exact List.not_mem_nil
      · exact ih h
    · next hc =>
      split at h
      · next hnil => exact absurd hnil (slashParts_ne_nil cs)
      · next first parts hparts =>
        rcases List.mem_cons.1 h with rfl | h
        · have hfirst := ih (hparts ▸ List.mem_cons_self)
          exact fun hmem => (List.mem_cons.1 hmem).elim (Ne.symm hc) hfirst
        · exact ih (hparts ▸ List.mem_cons_of_mem _ h)

/-- The last component of a path is a name that a file can have. -/
theorem isFileName_of_fileName? {path name : String} (h : fileName? path = some name) : IsFileName name := by
  unfold fileName? at h
  split at h
  · next text hlast =>
    obtain rfl := Option.some.inj h
    have hmem := List.mem_of_getLast? hlast
    have hpart : ∃ part ∈ slashParts path.toList, component? part = some (.name text) := by
      unfold components at hmem
      rcases List.mem_append.1 hmem with hstart | hparts
      · split at hstart
        · simp at hstart
        · split at hstart <;> simp at hstart
      · exact List.mem_filterMap.1 hparts
    obtain ⟨part, hpart, hname⟩ := hpart
    have hslash := slash_not_mem_of_mem_slashParts hpart
    unfold component? at hname
    split at hname
    · cases hname
    · next hplain =>
      split at hname
      · cases hname
      · next hparent =>
        simp only [Option.some.injEq, Component.name.injEq] at hname
        subst hname
        simp only [Bool.or_eq_true, decide_eq_true_eq, not_or] at hplain
        refine ⟨by rwa [String.toList_ofList], fun he => hplain.1 ?_, fun he => hplain.2 ?_, fun he => hparent ?_⟩
        all_goals
          have hchars := congrArg String.toList he
          rwa [String.toList_ofList] at hchars
  · cases h

/-- The parts of a path in a directory are those of the directory and the name. -/
theorem exists_pathParts (directory : String) :
    ∃ parts, ∀ name, IsFileName name → pathParts (joinName directory name) = parts ++ [name] := by
  have hname {name : String} (h : IsFileName name) : (slashParts name.toList).map String.ofList = [name] := by
    rw [slashParts_of_not_mem h.slash_not_mem, List.map_singleton, String.ofList_toList]
  by_cases hempty : directory = ""
  · refine ⟨[], fun name h => ?_⟩
    subst hempty
    rw [pathParts, List.nil_append, ← hname h]
    rfl
  · by_cases hslash : directory.toList.getLast? = some '/'
    · obtain ⟨before, hbefore⟩ := List.getLast?_eq_some_iff.1 hslash
      refine ⟨(slashParts before).map String.ofList, fun name h => ?_⟩
      rw [joinName, if_pos (by simp [hslash]), pathParts, String.toList_append, hbefore, List.append_assoc,
        List.singleton_append, slashParts_append_slash, List.map_append, hname h]
    · refine ⟨pathParts directory, fun name h => ?_⟩
      rw [joinName, if_neg (by simp [hempty, hslash]), pathParts, String.toList_append, String.toList_append,
        List.append_assoc, show "/".toList = ['/'] from rfl, List.singleton_append, slashParts_append_slash,
        List.map_append, hname h]
      rfl

end Paths

namespace FileTree

variable {tree tree' : FileTree} {place other : Place} {directory name sibling text text' : String}

section Walks

/-- A path in a directory starts where the directory starts. -/
theorem origin_joinName (tree : FileTree) (directory : String) (h : IsFileName name) :
    tree.origin (joinName directory name) = tree.origin directory := by
  by_cases hempty : directory = ""
  · subst hempty
    have hhead : name.toList.head? ≠ some '/' := fun hhead => h.slash_not_mem (List.mem_of_head? hhead)
    have hjoin : joinName "" name = name := by simp [joinName]
    rw [hjoin, origin, origin, if_neg hhead]
    rfl
  · have hhead : (joinName directory name).toList.head? = directory.toList.head? := by
      obtain ⟨c, cs, hcs⟩ := List.exists_cons_of_ne_nil (mt String.toList_eq_nil_iff.1 hempty)
      unfold joinName
      split <;> simp [String.toList_append, hcs]
    rw [origin, origin, hhead]

/-- Walking along two paths is walking along the first one and then along the second one. -/
theorem walk_append (tree : FileTree) (start : Place) (xs ys : List String) :
    tree.walk start (xs ++ ys) = (tree.walk start xs).bind fun reached => tree.walk reached ys := by
  induction xs generalizing start with
  | nil => rfl
  | cons part parts ih =>
    rw [List.cons_append, walk, walk]
    split
    · rfl
    · rfl
    · exact ih _

/-- The name of a file leads into the directory. -/
theorem move_of_isFileName (h : IsFileName name) : move place name = place ++ [name] := by
  simp [move, h.ne_empty, h.ne_here, h.ne_parent]

/-- A path in a directory leads to a place in it, which has the last name of the path. -/
theorem exists_directory_of_locate (directory : String) :
    ∃ parts, ∀ {tree : FileTree} {name : String} {place : Place}, IsFileName name →
      tree.locate (joinName directory name) = .ok place →
      ∃ reached, tree.walk (tree.origin directory) parts = .ok reached ∧
        tree.node? reached = some .directory ∧ place = reached ++ [name] := by
  obtain ⟨parts, hparts⟩ := exists_pathParts directory
  refine ⟨parts, fun {tree name place} hname hlocate => ?_⟩
  unfold locate at hlocate
  split at hlocate
  · cases hlocate
  split at hlocate
  · cases hlocate
  rw [hparts name hname, origin_joinName tree directory hname, walk_append] at hlocate
  cases hreached : tree.walk (tree.origin directory) parts with
  | error fault => rw [hreached] at hlocate; cases hlocate
  | ok reached =>
    rw [hreached, Except.bind, walk] at hlocate
    split at hlocate
    · cases hlocate
    · cases hlocate
    · next hnode =>
      rw [walk, move_of_isFileName hname, Except.ok.injEq] at hlocate
      exact ⟨reached, rfl, hnode, hlocate.symm⟩

/-- Files of a directory with different names stand at different places. -/
theorem place_ne_of_name_ne (hname : IsFileName name) (hsibling : IsFileName sibling) (hne : name ≠ sibling)
    (hplace : tree.locate (joinName directory name) = .ok place)
    (hplace' : tree.locate (joinName directory sibling) = .ok other) : place ≠ other := by
  obtain ⟨parts, hparts⟩ := exists_directory_of_locate directory
  obtain ⟨reached, hwalk, -, rfl⟩ := hparts hname hplace
  obtain ⟨reached', hwalk', -, rfl⟩ := hparts hsibling hplace'
  exact fun heq => hne (List.singleton_inj.1 (List.append_inj_right' heq rfl))

end Walks

section Puts

/-- The directories are those above the location, above the known directories and above the files. -/
theorem isDirectory_iff :
    tree.isDirectory place = true ↔
      ∃ known ∈ tree.location :: tree.directories ++ tree.files.map (·.1.dropLast), place <+: known := by
  simp only [isDirectory, List.any_eq_true, List.isPrefixOf_iff_prefix]

/-- A place where a directory is found is one. -/
theorem isDirectory_of_node? (h : tree.node? place = some .directory) : tree.isDirectory place = true := by
  unfold node? at h
  split at h
  · cases h
  · split at h
    · assumption
    · cases h

/-- A file that is put in a directory makes no other place a directory, and none ceases to be one. -/
theorem isDirectory_put (hdir : tree.isDirectory place.dropLast = true) (contents : Contents) (other : Place) :
    (tree.put place contents).isDirectory other = tree.isDirectory other := by
  rw [Bool.eq_iff_iff, isDirectory_iff, isDirectory_iff]
  constructor
  · rintro ⟨known, hknown, hprefix⟩
    rcases List.mem_append.1 hknown with hmade | hfile
    · exact ⟨known, List.mem_append_left _ hmade, hprefix⟩
    · rcases List.mem_cons.1 hfile with rfl | hfile
      · obtain ⟨known, hknown, hup⟩ := isDirectory_iff.1 hdir
        exact ⟨known, hknown, hprefix.trans hup⟩
      · obtain ⟨file, hmem, rfl⟩ := List.mem_map.1 hfile
        exact ⟨_, List.mem_append_right _ (List.mem_map_of_mem ((List.mem_filter.1 hmem).1)), hprefix⟩
  · rintro ⟨known, hknown, hprefix⟩
    refine ⟨known, ?_, hprefix⟩
    rcases List.mem_append.1 hknown with hmade | hfile
    · exact List.mem_append_left _ hmade
    · obtain ⟨file, hmem, rfl⟩ := List.mem_map.1 hfile
      refine List.mem_append_right _ ?_
      by_cases hsame : file.1 = place
      · exact hsame ▸ List.mem_cons_self
      · refine List.mem_cons_of_mem _ (List.mem_map_of_mem (List.mem_filter.2 ⟨hmem, ?_⟩))
        exact decide_eq_true hsame

/-- Taking the contents away at one place leaves the others. -/
theorem lookup_filter_of_ne (files : List (Place × Contents)) (hne : other ≠ place) :
    (files.filter (·.1 ≠ place)).lookup other = files.lookup other := by
  induction files with
  | nil => rfl
  | cons file files ih =>
    obtain ⟨held, contents⟩ := file
    by_cases hheld : held = place
    · have hskip : (other == held) = false := by simp [hheld, hne]
      rw [List.filter_cons_of_neg (by simp [hheld]), List.lookup_cons, hskip, ih]
    · rw [List.filter_cons_of_pos (by simp [hheld]), List.lookup_cons, List.lookup_cons, ih]

/-- A file that is put in a directory changes nothing that stands elsewhere. -/
theorem node?_put_of_ne (hdir : tree.isDirectory place.dropLast = true) (contents : Contents) (hne : other ≠ place) :
    (tree.put place contents).node? other = tree.node? other := by
  have hlookup : (tree.put place contents).files.lookup other = tree.files.lookup other := by
    have hskip : (other == place) = false := beq_eq_false_iff_ne.2 hne
    rw [put, List.lookup_cons, hskip, lookup_filter_of_ne _ hne]
  rw [node?, node?, hlookup, isDirectory_put hdir]

/-- A path leads where it led: a file is put where no directory stands, and a path goes through directories only. -/
theorem walk_put (hdir : tree.isDirectory place.dropLast = true) (hnode : tree.node? place ≠ some .directory)
    (contents : Contents) {start reached : Place} {parts : List String} (h : tree.walk start parts = .ok reached) :
    (tree.put place contents).walk start parts = .ok reached := by
  induction parts generalizing start with
  | nil => exact h
  | cons part parts ih =>
    rw [walk] at h ⊢
    split at h
    · cases h
    · cases h
    · next hstart =>
      have hne : start ≠ place := fun heq => hnode (heq ▸ hstart)
      rw [node?_put_of_ne hdir contents hne, hstart]
      exact ih h

/-- Putting a file where there is no directory does not change where paths lead. -/
theorem locate_put (hdir : tree.isDirectory place.dropLast = true) (hnode : tree.node? place ≠ some .directory)
    (contents : Contents) {path : String} (h : tree.locate path = .ok other) :
    (tree.put place contents).locate path = .ok other := by
  unfold locate at h ⊢
  split at h
  · cases h
  split at h
  · cases h
  next hnul hempty =>
  rw [if_neg hnul, if_neg hempty]
  exact walk_put hdir hnode contents h

end Puts

section Files

variable {path : String}

/-- A text is read from the place that its path leads to. -/
theorem read_eq_ok_iff :
    tree.read path = .ok text ↔
      ∃ place, tree.locate path = .ok place ∧ tree.node? place = some (.file (.text text)) := by
  unfold read
  cases hlocate : tree.locate path with
  | error fault => simp [bind, Except.bind]
  | ok place =>
    simp only [bind, Except.bind, Except.ok.injEq, exists_eq_left']
    split
    all_goals simp_all [pure, Except.pure, throw, throwThe, MonadExceptOf.throw]

/-- A text is written to the place that its path leads to, unless a directory is there. -/
theorem write_eq_ok_iff :
    tree.write path text = .ok tree' ↔
      ∃ place, tree.locate path = .ok place ∧ tree.node? place ≠ some .directory ∧
        tree.put place (.text text) = tree' := by
  unfold write
  cases hlocate : tree.locate path with
  | error fault => simp [bind, Except.bind]
  | ok place =>
    simp only [bind, Except.bind, Except.ok.injEq, exists_eq_left']
    split
    all_goals simp_all [pure, Except.pure, throw, throwThe, MonadExceptOf.throw]

/-- A place that a path in a directory leads to is in a directory of the tree. -/
theorem isDirectory_dropLast_of_locate (hname : IsFileName name)
    (h : tree.locate (joinName directory name) = .ok place) : tree.isDirectory place.dropLast = true := by
  obtain ⟨parts, hparts⟩ := exists_directory_of_locate directory
  obtain ⟨reached, -, hnode, rfl⟩ := hparts hname h
  rw [List.dropLast_concat]
  exact isDirectory_of_node? hnode

/-- A file of a directory holds what was written to it. -/
theorem read_of_write (hname : IsFileName name) (h : tree.write (joinName directory name) text = .ok tree') :
    tree'.read (joinName directory name) = .ok text := by
  obtain ⟨place, hlocate, hnode, rfl⟩ := write_eq_ok_iff.1 h
  have hdir := isDirectory_dropLast_of_locate hname hlocate
  exact read_eq_ok_iff.2 ⟨place, locate_put hdir hnode _ hlocate, node?_put_self tree place _⟩

/-- A file of a directory holds what it held after a file with another name was written there. -/
theorem read_of_write_other (hname : IsFileName name) (hsibling : IsFileName sibling) (hne : name ≠ sibling)
    (hread : tree.read (joinName directory name) = .ok text)
    (h : tree.write (joinName directory sibling) text' = .ok tree') :
    tree'.read (joinName directory name) = .ok text := by
  obtain ⟨place, hlocate, hheld⟩ := read_eq_ok_iff.1 hread
  obtain ⟨written, hlocate', hnode, rfl⟩ := write_eq_ok_iff.1 h
  have hdir := isDirectory_dropLast_of_locate hsibling hlocate'
  have hplaces := place_ne_of_name_ne hname hsibling hne hlocate hlocate'
  exact read_eq_ok_iff.2
    ⟨place, locate_put hdir hnode _ hlocate, by rw [node?_put_of_ne hdir _ hplaces, hheld]⟩

end Files

section Directories

/-- Making a directory leaves all files as they are. -/
theorem files_makeDirectory {start : Place} {parts : List String} (h : tree.makeDirectory start parts = .ok tree') :
    tree'.files = tree.files := by
  unfold makeDirectory at h
  cases hwalk : tree.walk start parts with
  | error fault => rw [hwalk] at h; cases h
  | ok place =>
    simp only [hwalk, bind, Except.bind] at h
    split at h
    · cases h
    · cases h
      rfl

/-- Making directories leaves all files as they are. -/
theorem files_makeDirectories (tree : FileTree) (start : Place) (paths : List (List String)) :
    (tree.makeDirectories start paths).2.files = tree.files := by
  induction paths generalizing tree with
  | nil => rfl
  | cons parts shorter ih =>
    unfold makeDirectories
    split
    · next hmade => exact files_makeDirectory hmade
    · have hshorter := ih tree
      split
      · next hmade => rwa [hmade] at hshorter
      · next hmade =>
        rw [hmade] at hshorter
        split
        · next hlast => exact (files_makeDirectory hlast).trans hshorter
        · exact hshorter
    · rfl

/-- To make directories touches no file. -/
theorem files_createDirectories (tree : FileTree) (path : String) :
    (tree.createDirectories path).2.files = tree.files := by
  unfold createDirectories
  split
  · rfl
  split
  · rfl
  · exact files_makeDirectories tree _ _

end Directories

end FileTree

end BicepMigration.Files
