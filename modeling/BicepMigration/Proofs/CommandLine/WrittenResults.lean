import BicepMigration.CommandLine.Execution
import BicepMigration.Proofs.Files.NamedFiles

/-!
# Written results

A resolution that ends well has read each template before it wrote anything, and has written each result to a file of its
own, which no later result was written to. That is so as long as results are not printed as JSON: with JSON, a directory
for the results is made and no file is written.
-/

namespace BicepMigration.CommandLine

open Catalog Files Migration Template

section Endings

variable {α β : Type} {before between after : Session} {value : α}

/-- A run ends with a value and leaves a session. -/
def Ends (run : Run (StateM Session) α) (before : Session) (value : α) (after : Session) : Prop :=
  (run.run.run before).run = (.ok value, after)

/-- A value ends at once and changes nothing. -/
theorem ends_pure_iff {result : α} :
    Ends (pure value) before result after ↔ value = result ∧ before = after := by
  refine ⟨fun h => ?_, fun ⟨hvalue, hsession⟩ => hvalue ▸ hsession ▸ rfl⟩
  obtain ⟨hvalue, hsession⟩ := Prod.mk.inj (show (Except.ok value, before) = (Except.ok result, after) from h)
  exact ⟨Except.ok.inj hvalue, hsession⟩

/-- A fault does not end with a result. -/
theorem not_ends_throw {message : String} : ¬ Ends (throw message) before value after := by
  intro h
  have herror : (Except.error message : Except String α) = .ok value := congrArg Prod.fst h
  cases herror

/-- Of two runs in a row, the second goes on from the session of the first. -/
theorem ends_bind_iff {run : Run (StateM Session) α} {next : α → Run (StateM Session) β} {result : β} :
    Ends (run >>= next) before result after ↔
      ∃ value between, Ends run before value between ∧ Ends (next value) between result after := by
  have hbind : ((run >>= next).run.run before).run =
      match (run.run.run before).run with
      | (.ok value, between) => ((next value).run.run between).run
      | (.error message, between) => (.error message, between) := by
    unfold ExceptT.run StateT.run Id.run
    simp only [bind, ExceptT.bind, ExceptT.mk, StateT.bind, ExceptT.bindCont]
    cases run before with
    | mk ended between => cases ended <;> rfl
  unfold Ends
  rw [hbind]
  rcases (run.run.run before).run with ⟨_ | value, between⟩
  · simp
  · refine ⟨fun h => ⟨value, between, rfl, h⟩, ?_⟩
    rintro ⟨value, between, hfirst, hnext⟩
    cases hfirst
    exact hnext

/-- An action that cannot fail ends with what it gives. -/
theorem ends_lift_iff {action : StateM Session α} :
    Ends (ExceptT.lift action) before value after ↔ (action.run before).run = (value, after) := by
  have hlift : ((ExceptT.lift action : Run (StateM Session) α).run.run before).run =
      (.ok (action.run before).run.1, (action.run before).run.2) := rfl
  unfold Ends
  rw [hlift, Prod.ext_iff, Prod.ext_iff, Except.ok.injEq]

/-- An attempt ends where the action meets no fault. -/
theorem ends_attempt_iff {message : FileFault → String} {action : StateM Session (Except FileFault α)} :
    Ends (attempt message action) before value after ↔ (action.run before).run = (.ok value, after) := by
  rw [attempt, ends_bind_iff]
  constructor
  · rintro ⟨ended, between, haction, hnext⟩
    cases ended with
    | error fault => exact absurd hnext not_ends_throw
    | ok found =>
      obtain ⟨rfl, rfl⟩ := ends_pure_iff.1 hnext
      exact ends_lift_iff.1 haction
  · exact fun h => ⟨.ok value, after, ends_lift_iff.2 h, ends_pure_iff.2 ⟨rfl, rfl⟩⟩

/-- What each run in a row keeps, all of them keep. -/
theorem ends_forM_induction {items : List α} {action : α → Run (StateM Session) Unit} (kept : Session → Prop)
    (hstep : ∀ item ∈ items, ∀ {before after : Session}, Ends (action item) before () after → kept before → kept after)
    (h : Ends (items.forM action) before () after) (hbefore : kept before) : kept after := by
  induction items generalizing before with
  | nil => exact (ends_pure_iff.1 h).2 ▸ hbefore
  | cons item items ih =>
    obtain ⟨⟨⟩, between, hfirst, hrest⟩ := ends_bind_iff.1 h
    exact ih (fun later hlater => hstep later (List.mem_cons_of_mem _ hlater)) hrest
      (hstep item List.mem_cons_self hfirst hbefore)

end Endings

section Steps

variable {before after : Session} {files : List String} {directory file text : String} {r : Resolution}

/-- A line that is printed leaves all files as they are. -/
theorem tree_of_ends_printLine {line : String} (h : Ends (printLine line) before () after) :
    after.tree = before.tree := by
  obtain ⟨-, rfl⟩ := Prod.mk.inj (ends_lift_iff.1 h)
  rfl

/-- A line that is reported leaves all files as they are. -/
theorem tree_of_ends_reportLine {line : String} (h : Ends (reportLine line) before () after) :
    after.tree = before.tree := by
  obtain ⟨-, rfl⟩ := Prod.mk.inj (ends_lift_iff.1 h)
  rfl

/-- Reading a file ends with its text and changes nothing. -/
theorem ends_readText_iff {message : FileFault → String} {path : String} :
    Ends (attempt message (Host.readText path)) before text after ↔
      before.tree.read path = .ok text ∧ before = after := by
  rw [ends_attempt_iff]
  exact Prod.ext_iff

/-- What is written is written to the files of the session. -/
theorem tree_of_ends_writeText {message : FileFault → String} {path : String}
    (h : Ends (attempt message (Host.writeText path text)) before () after) :
    before.tree.write path text = .ok after.tree := by
  have hwrite : before.write path text = (.ok (), after) := ends_attempt_iff.1 h
  unfold Session.write at hwrite
  split at hwrite
  · cases hwrite
  · next tree htree =>
    cases hwrite
    exact htree

/-- Directories that are made are made among the files of the session. -/
theorem made_of_ends_createDirectories {message : FileFault → String}
    (h : Ends (attempt message (Host.createDirectories directory)) before () after) :
    before.createDirectories directory = (.ok (), after) := by
  rw [ends_attempt_iff] at h
  exact h

/-- To load a catalog changes nothing. -/
theorem session_of_ends_loadCatalog {path : Option String} {catalog : ModuleCatalog}
    (h : Ends (loadCatalog path) before catalog after) : before = after := by
  unfold loadCatalog at h
  split at h
  · exact (ends_pure_iff.1 h).2
  split at h
  · exact absurd h not_ends_throw
  obtain ⟨text, between, hread, hnext⟩ := ends_bind_iff.1 h
  obtain ⟨-, rfl⟩ := ends_readText_iff.1 hread
  split at hnext
  · exact absurd hnext not_ends_throw
  · exact (ends_pure_iff.1 hnext).2

/-- No clash was found if the run goes on, and nothing has changed. -/
theorem clash_of_ends_refuseClash (h : Ends (refuseClash files (some directory)) before () after) :
    outputClash? directory [] files = none ∧ before = after := by
  simp only [refuseClash] at h
  split at h
  · next hclash => exact ⟨hclash, (ends_pure_iff.1 h).2⟩
  · exact absurd h not_ends_throw

/-- Each template is read from its file, and nothing changes meanwhile. -/
theorem items_of_ends_mapM {items : List BatchItem}
    (h : Ends (files.mapM fun file => do
      let source ← readTemplate file
      pure (⟨file, source⟩ : BatchItem)) before items after) :
    items.map (·.name) = files ∧ (∀ item ∈ items, before.tree.read item.name = .ok item.source) ∧ before = after := by
  induction files generalizing before items with
  | nil =>
    obtain ⟨rfl, rfl⟩ := ends_pure_iff.1 h
    exact ⟨rfl, fun _ hitem => absurd hitem List.not_mem_nil, rfl⟩
  | cons file files ih =>
    rw [List.mapM_cons] at h
    obtain ⟨item, between, hitem, h⟩ := ends_bind_iff.1 h
    obtain ⟨rest, later, hrest, h⟩ := ends_bind_iff.1 h
    obtain ⟨rfl, rfl⟩ := ends_pure_iff.1 h
    obtain ⟨source, read, hread, hitem⟩ := ends_bind_iff.1 hitem
    obtain ⟨rfl, rfl⟩ := ends_pure_iff.1 hitem
    obtain ⟨hsource, rfl⟩ := ends_readText_iff.1 hread
    obtain ⟨hnames, hsources, rfl⟩ := ih hrest
    refine ⟨congrArg (file :: ·) hnames, fun item hitem => ?_, rfl⟩
    rcases List.mem_cons.1 hitem with rfl | hitem
    · exact hsource
    · exact hsources item hitem

/-- A result that is emitted to a directory is written to its file. -/
theorem tree_of_ends_emitOutcome {outcome : BatchOutcome} (hresult : outcome.result = .ok r)
    (h : Ends (emitOutcome (some directory) file outcome) before () after) :
    before.tree.write (outputPath directory file) r.output = .ok after.tree := by
  simp only [emitOutcome, hresult] at h
  obtain ⟨⟨⟩, reported, hreport, hemit⟩ := ends_bind_iff.1 h
  have htree : reported.tree = before.tree :=
    ends_forM_induction (fun session => session.tree = before.tree)
      (fun line _ {_ _} hline hkept => (tree_of_ends_reportLine hline).trans hkept) hreport rfl
  obtain ⟨⟨⟩, written, hwrite, hprint⟩ := ends_bind_iff.1 hemit
  rw [← htree, tree_of_ends_printLine hprint]
  exact tree_of_ends_writeText hwrite

end Steps

section Targets

/-- The name of the file that the result of a template is written to. -/
def resultName (file : String) : String := (fileName? file).getD "main.bicep"

/-- The name of a result is a name of a file. -/
theorem isFileName_resultName (file : String) : IsFileName (resultName file) := by
  unfold resultName
  cases hname : fileName? file with
  | none => exact ⟨by decide, by decide, by decide, by decide⟩
  | some name => exact isFileName_of_fileName? hname

/-- Without a clash all results go to different places. -/
theorem nodup_of_outputClash? {directory : String} {files earlier : List String}
    (h : outputClash? directory earlier files = none) :
    (files.map fun file => components (outputPath directory file)).Nodup ∧
      ∀ file ∈ files, ∀ other ∈ earlier,
        components (outputPath directory other) ≠ components (outputPath directory file) := by
  induction files generalizing earlier with
  | nil => exact ⟨List.nodup_nil, fun _ hfile => absurd hfile List.not_mem_nil⟩
  | cons file rest ih =>
    simp only [outputClash?] at h
    split at h
    · cases h
    · next hnone =>
      obtain ⟨hrest, hearlier⟩ := ih h
      refine ⟨List.nodup_cons.2 ⟨fun hmem => ?_, hrest⟩, fun later hlater other hother => ?_⟩
      · obtain ⟨later, hlater, hsame⟩ := List.mem_map.1 hmem
        exact hearlier later hlater file List.mem_cons_self hsame.symm
      · rcases List.mem_cons.1 hlater with rfl | hlater
        · exact of_decide_eq_false (by simpa using List.find?_eq_none.1 hnone other hother)
        · exact hearlier later hlater other (List.mem_cons_of_mem _ hother)

/-- Files with different paths in one directory have different names. -/
theorem nodup_resultNames {directory : String} {files : List String}
    (h : (files.map fun file => components (outputPath directory file)).Nodup) : (files.map resultName).Nodup := by
  rw [List.Nodup, List.pairwise_map] at h ⊢
  exact h.imp fun hne heq => hne (congrArg (fun name => components (joinName directory name)) heq)

end Targets

section Resolutions

variable {before after : Session} {directory : String} {request : ResolveRequest}

/-- Each result that is emitted to a directory under a name of its own is in its file when all are emitted. -/
theorem results_of_ends_forM {pairs : List (BatchOutcome × String)}
    (hresults : ∀ pair ∈ pairs, ∃ r, pair.1.result = .ok r) (hnames : (pairs.map fun pair => resultName pair.2).Nodup)
    (h : Ends (pairs.forM fun (outcome, file) => emitOutcome (some directory) file outcome) before () after) :
    ∀ pair ∈ pairs, ∃ r, pair.1.result = .ok r ∧ after.tree.read (outputPath directory pair.2) = .ok r.output := by
  induction pairs generalizing before with
  | nil => exact fun _ hpair => absurd hpair List.not_mem_nil
  | cons first rest ih =>
    obtain ⟨⟨⟩, between, hfirst, hrest⟩ := ends_bind_iff.1 h
    rw [List.map_cons, List.nodup_cons] at hnames
    intro pair hpair
    rcases List.mem_cons.1 hpair with rfl | hpair
    · obtain ⟨r, hr⟩ := hresults pair List.mem_cons_self
      refine ⟨r, hr, ?_⟩
      have hwritten : between.tree.read (outputPath directory pair.2) = .ok r.output :=
        FileTree.read_of_write (isFileName_resultName _) (tree_of_ends_emitOutcome hr hfirst)
      -- the later results go to files with other names
      refine ends_forM_induction (fun session => session.tree.read (outputPath directory pair.2) = .ok r.output)
        (fun later hlater {_ _} hstep hkept => ?_) hrest hwritten
      obtain ⟨r', hr'⟩ := hresults later (List.mem_cons_of_mem _ hlater)
      have hne : resultName pair.2 ≠ resultName later.2 :=
        fun heq => hnames.1 (List.mem_map.2 ⟨later, hlater, heq.symm⟩)
      exact FileTree.read_of_write_other (isFileName_resultName _) (isFileName_resultName _) hne hkept
        (tree_of_ends_emitOutcome hr' hstep)
    · exact ih (fun later hlater => hresults later (List.mem_cons_of_mem _ hlater)) hnames.2 hrest pair hpair

/-- A batch item that did not fail has a result. -/
theorem exists_result_of_passed {outcome : BatchOutcome} {denyWarnings : Bool}
    (h : outcome.fails denyWarnings = false) : ∃ r, outcome.result = .ok r := by
  unfold BatchOutcome.fails at h
  split at h
  · cases h
  · next r hr => exact ⟨r, hr⟩

/-- What a resolution to a directory has done when it ends. -/
structure ResolvedTo (directory : String) (request : ResolveRequest) (before after : Session) (catalog : ModuleCatalog)
    (items : List BatchItem) (made : Session) : Prop where
  no_clash : outputClash? directory [] request.files = none
  catalog_loaded : Ends (loadCatalog request.catalog) before catalog before
  names : items.map (·.name) = request.files
  sources : ∀ item ∈ items, before.tree.read item.name = .ok item.source
  directory_made : before.createDirectories directory = (.ok (), made)
  passed : ∀ outcome ∈ resolveBatch catalog items, outcome.fails request.denyWarnings = false
  emitted :
    if request.json then
      Ends (printLine (valueText (.array ((resolveBatch catalog items).map outcomeValue)))) made () after
    else
      Ends (((resolveBatch catalog items).zip request.files).forM fun (outcome, file) =>
        emitOutcome (some directory) file outcome) made () after

/-- A resolution ends where no template failed. -/
theorem passed_of_ends {outcomes : List BatchOutcome} {denyWarnings : Bool} {message : String}
    (h : Ends (if 0 < outcomes.countP (BatchOutcome.fails denyWarnings) then throw message else pure ())
      before () after) :
    (∀ outcome ∈ outcomes, outcome.fails denyWarnings = false) ∧ before = after := by
  split at h
  · exact absurd h not_ends_throw
  · next hfailed =>
    have hnone := List.countP_eq_zero.1 (Nat.eq_zero_of_not_pos hfailed)
    exact ⟨fun outcome houtcome => Bool.eq_false_iff.2 (hnone outcome houtcome), (ends_pure_iff.1 h).2⟩

/-- A run that ends has resolved every template of the request. -/
theorem exists_resolvedTo (hout : request.out = some directory) (h : Ends (runResolve request) before () after) :
    ∃ catalog items made, ResolvedTo directory request before after catalog items made := by
  unfold runResolve at h
  rw [hout] at h
  obtain ⟨⟨⟩, start, hrefuse, h⟩ := ends_bind_iff.1 h
  obtain ⟨hclash, rfl⟩ := clash_of_ends_refuseClash hrefuse
  obtain ⟨catalog, loaded, hcatalog, h⟩ := ends_bind_iff.1 h
  obtain rfl := session_of_ends_loadCatalog hcatalog
  obtain ⟨items, read, hitems, h⟩ := ends_bind_iff.1 h
  obtain ⟨hnames, hsources, rfl⟩ := items_of_ends_mapM hitems
  simp only at h
  obtain ⟨⟨⟩, made, hmade, h⟩ := ends_bind_iff.1 h
  refine ⟨catalog, items, made, ?_⟩
  split at h
  · next hjson =>
    obtain ⟨⟨⟩, emitted, hemitted, h⟩ := ends_bind_iff.1 h
    obtain ⟨hpass, rfl⟩ := passed_of_ends h
    exact ⟨hclash, hcatalog, hnames, hsources, made_of_ends_createDirectories hmade, hpass, by rwa [if_pos hjson]⟩
  · next hjson =>
    obtain ⟨⟨⟩, emitted, hemitted, h⟩ := ends_bind_iff.1 h
    obtain ⟨hpass, rfl⟩ := passed_of_ends h
    exact ⟨hclash, hcatalog, hnames, hsources, made_of_ends_createDirectories hmade, hpass, by rwa [if_neg hjson]⟩

/-- A resolution to a directory that ends, and does not print JSON, has written every result: no two templates have one
file, and the file of each holds what its text before the run is resolved to. -/
theorem resolve_writes_results {request : ResolveRequest} {directory : String} {before after : Session}
    (hout : request.out = some directory) (hjson : request.json = false)
    (h : Ends (runResolve request) before () after) :
    ∃ catalog, Ends (loadCatalog request.catalog) before catalog before ∧
      (request.files.map fun file => components (outputPath directory file)).Nodup ∧
      ∀ file ∈ request.files, ∃ source r, before.tree.read file = .ok source ∧
        resolve catalog file source = .ok r ∧ after.tree.read (outputPath directory file) = .ok r.output := by
  obtain ⟨catalog, items, made, hrun⟩ := exists_resolvedTo hout h
  have hpaths := (nodup_of_outputClash? hrun.no_clash).1
  have hemitted := hrun.emitted
  have hpassed := hrun.passed
  refine ⟨catalog, hrun.catalog_loaded, hpaths, fun file hfile => ?_⟩
  rw [← hrun.names] at hfile hpaths
  rw [hjson, if_neg Bool.false_ne_true, ← hrun.names, resolveBatch, List.zip_map'] at hemitted
  rw [resolveBatch, List.forall_mem_map] at hpassed
  have hnames := nodup_resultNames hpaths
  have hresults := results_of_ends_forM (List.forall_mem_map.2 fun item hitem =>
    exists_result_of_passed (hpassed item hitem)) (by rwa [List.map_map] at hnames ⊢) hemitted
  obtain ⟨item, hitem, rfl⟩ := List.mem_map.1 hfile
  obtain ⟨r, hr, hread⟩ := hresults _ (List.mem_map_of_mem hitem)
  exact ⟨item.source, r, hrun.sources item hitem, hr, hread⟩

/-- Two templates in two directories. -/
def twoTemplates : Session where
  tree :=
    { location := ["home"]
      directories := []
      files := [(["home", "a", "x.bicep"], .text "var x = 1\n"), (["home", "b", "y.bicep"], .text "var y = 2\n")] }
  printed := ""
  reported := ""

/-- Resolves the two templates to the directory of the first. -/
def twoTemplatesRequest (json : Bool) : ResolveRequest where
  files := ["a/x.bicep", "b/y.bicep"]
  catalog := none
  environment := Options.defaultEnvironment
  out := some "a"
  json := json
  denyWarnings := true
  timeout := none

/-- What becomes of the two templates. -/
def twoTemplatesEnd (json : Bool) : Except String Unit × Session :=
  ((runResolve (twoTemplatesRequest json) : Run (StateM Session) Unit).run.run twoTemplates).run

/-- The resolution ends with and without JSON, and with JSON the second result is in no file. -/
theorem run_twoTemplates :
    (∀ json, (twoTemplatesEnd json).1.toOption = some ()) ∧
      ((twoTemplatesEnd true).2.tree.read (outputPath "a" "b/y.bicep")).toOption = none := by
  decide +kernel

/-- The run on two templates ends. -/
theorem ends_twoTemplates (json : Bool) :
    Ends (runResolve (twoTemplatesRequest json)) twoTemplates () (twoTemplatesEnd json).2 := by
  have hended := run_twoTemplates.1 json
  unfold Ends
  unfold twoTemplatesEnd at hended ⊢
  generalize ((runResolve (twoTemplatesRequest json) : Run (StateM Session) Unit).run.run twoTemplates).run = ended
    at hended ⊢
  rcases ended with ⟨_ | ⟨⟩, after⟩
  · cases hended
  · rfl

theorem resolve_writes_results_two :
    (twoTemplatesRequest false).out = some "a" ∧ (twoTemplatesRequest false).json = false ∧
      Ends (runResolve (twoTemplatesRequest false)) twoTemplates () (twoTemplatesEnd false).2 ∧
      ∃ catalog, Ends (loadCatalog none) twoTemplates catalog twoTemplates ∧
        (["a/x.bicep", "b/y.bicep"].map fun file => components (outputPath "a" file)).Nodup ∧
        ∀ file ∈ ["a/x.bicep", "b/y.bicep"], ∃ source r, twoTemplates.tree.read file = .ok source ∧
          resolve catalog file source = .ok r ∧
          (twoTemplatesEnd false).2.tree.read (outputPath "a" file) = .ok r.output :=
  ⟨rfl, rfl, ends_twoTemplates false, resolve_writes_results rfl rfl (ends_twoTemplates false)⟩

/-- With JSON, the resolution ends as well, and no text can be read where the second result belongs. -/
theorem resolve_json_writes_nothing :
    Ends (runResolve (twoTemplatesRequest true)) twoTemplates () (twoTemplatesEnd true).2 ∧
      ∀ text, (twoTemplatesEnd true).2.tree.read (outputPath "a" "b/y.bicep") ≠ .ok text := by
  have hunread := run_twoTemplates.2
  refine ⟨ends_twoTemplates true, fun text hread => ?_⟩
  rw [hread] at hunread
  cases hunread

/-- With JSON, a resolution to a directory leaves every file as it was. -/
theorem files_of_json_resolution (hout : request.out = some directory) (hjson : request.json = true)
    (h : Ends (runResolve request) before () after) : after.tree.files = before.tree.files := by
  obtain ⟨catalog, items, made, hrun⟩ := exists_resolvedTo hout h
  have hemitted := hrun.emitted
  rw [if_pos hjson] at hemitted
  have hmade : made = (before.createDirectories directory).2 := by rw [hrun.directory_made]
  rw [tree_of_ends_printLine hemitted, hmade]
  exact FileTree.files_createDirectories before.tree directory

end Resolutions

end BicepMigration.CommandLine
