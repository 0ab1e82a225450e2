/-
  DesignTokens.Proofs.Project.Overwritten — what starting a project does to the files that are
  there.

  A project is started in three stages: the folders are made, it is looked for a configuration,
  and four files are written.  Making folders touches nothing that stands anywhere.  Of the four
  files only the configuration is looked for, so the other three are written over whatever text
  they had.  A stage that fails leaves behind what the stages before it made; so what is left is
  always the files as they were, with a first part of the new ones written over them.

  Main facts:
    * `widens_makeFolders` — folders are made only where nothing stands.
    * `exists_saved_of_writeFiles` — writing leaves a first part of the files written.
    * `exists_saved_of_start` — and so does starting a project.
    * `init_overwrites_starters` — which files are kept, and which are not.
    * `ignoreList_lost` — a list of what is not to be kept that is lost.
-/
import DesignTokens.Cli.Run
import DesignTokens.Proofs.Outcome
import Mathlib.Data.List.Nodup

namespace DesignTokens

namespace FileTree

/-! ## §1. Folders -/

/-- A change of a tree that only makes folders where nothing stood. -/
def Widens (t t' : FileTree) : Prop :=
  ∀ place, t'.node? place = t.node? place
    ∨ (t.node? place = none ∧ t'.node? place = some .folder)

theorem Widens.refl (t : FileTree) : t.Widens t := fun _ => Or.inl rfl

theorem Widens.trans {t t' t'' : FileTree} (h : t.Widens t') (h' : t'.Widens t'') :
    t.Widens t'' := by
  intro place
  rcases h' place with hsame' | ⟨hnone', hfolder'⟩
  · rw [hsame']
    exact h place
  · rcases h place with hsame | ⟨-, hfolder⟩
    · exact Or.inr ⟨hsame.symm.trans hnone', hfolder'⟩
    · exact absurd (hnone'.symm.trans hfolder) (Option.some_ne_none _).symm

theorem widens_set_folder {t : FileTree} {place : Place} (h : t.node? place = none) :
    t.Widens (t.set place .folder) := by
  intro other
  by_cases hplace : other = place
  · subst hplace
    have hne : other ≠ [] := by
      rintro rfl
      exact absurd h (Option.some_ne_none _)
    exact Or.inr ⟨h, node?_set_self hne .folder t⟩
  · exact Or.inl (node?_set_of_ne hplace .folder t)

theorem widens_makeFoldersIn (here : Place) (steps : List PathStep) (t : FileTree) :
    t.Widens (makeFoldersIn here steps t).2 := by
  induction steps generalizing here t with
  | nil => exact Widens.refl t
  | cons step rest ih =>
    cases step with
    | up => exact ih here.dropLast t
    | name name =>
      rw [makeFoldersIn]
      cases hnode : t.node? (here ++ [name]) with
      | none =>
        by_cases hname : isName name = true
        · rw [if_pos hname]
          exact (widens_set_folder hnode).trans (ih _ _)
        · rw [if_neg hname]
          exact Widens.refl t
      | some node =>
        cases node with
        | folder => exact ih _ t
        | file text => exact Widens.refl t

/-- **Folders are made only where nothing stands.** -/
theorem widens_makeFolders (here : Place) (path : DocPath) (t : FileTree) :
    t.Widens (t.makeFolders here path).2 :=
  widens_makeFoldersIn _ _ t

/-- So every file is as it was, and none is new. -/
theorem Widens.fileText?_eq {t t' : FileTree} (h : t.Widens t') (place : Place) :
    t'.fileText? place = t.fileText? place := by
  rcases h place with hsame | ⟨hnone, hfolder⟩
  · rw [fileText?, fileText?, hsame]
  · rw [fileText?, fileText?, hnone, hfolder]

theorem Widens.isSome_node? {t t' : FileTree} (h : t.Widens t') {place : Place}
    (hplace : (t.node? place).isSome = true) : (t'.node? place).isSome = true := by
  rcases h place with hsame | ⟨-, hfolder⟩
  · rw [hsame]
    exact hplace
  · rw [hfolder]
    rfl

/-! ## §2. Files -/

theorem fileText?_set_file {place : Place} (h : place ≠ []) (text : String) (t : FileTree) :
    (t.set place (.file text)).fileText? place = some text := by
  rw [fileText?, node?_set_self h]

theorem fileText?_set_file_of_ne {place other : Place} (h : other ≠ place) (text : String)
    (t : FileTree) : (t.set place (.file text)).fileText? other = t.fileText? other := by
  rw [fileText?, fileText?, node?_set_of_ne h]

/-- Names lead to where they say, if they lead anywhere. -/
theorem eq_append_of_walk?_names {t : FileTree} {here place : Place} {names : List String}
    (h : t.walk? here (names.map .name) = some place) : place = here ++ names := by
  induction names generalizing here with
  | nil =>
    obtain rfl : here = place := Option.some.inj h
    rw [List.append_nil]
  | cons name rest ih =>
    rw [List.map_cons, walk?] at h
    by_cases hfolder : t.isFolder here = true
    · rw [if_pos hfolder] at h
      rw [ih h]
      show here ++ [name] ++ rest = here ++ name :: rest
      rw [List.append_assoc, List.singleton_append]
    · rw [if_neg hfolder] at h
      cases h

theorem writeIn_cases (folder : Place) (name text : String) (t : FileTree) :
    t.writeIn folder name text = (.ok (), t.set (folder ++ [name]) (.file text))
      ∨ ∃ fault, t.writeIn folder name text = (.error fault, t) := by
  rw [writeIn]
  split
  · exact Or.inr ⟨_, rfl⟩
  · split
    · exact Or.inr ⟨_, rfl⟩
    · split
      · exact Or.inl rfl
      · exact Or.inr ⟨_, rfl⟩

/-- **A file is written as a whole or not at all.** -/
theorem write_names_cases (place : Place) (text : String) (t : FileTree) :
    (place ≠ [] ∧ t.write [] ⟨true, place.map .name⟩ text = (.ok (), t.set place (.file text)))
      ∨ ∃ fault, t.write [] ⟨true, place.map .name⟩ text = (.error fault, t) := by
  rcases List.eq_nil_or_concat place with rfl | ⟨names, name, rfl⟩
  · exact Or.inr ⟨.isFolder, rfl⟩
  · rw [List.concat_eq_append]
    have hlast : ((names ++ [name]).map PathStep.name).getLast? = some (.name name) := by
      rw [List.map_append]
      exact List.getLast?_concat
    have hfront : ((names ++ [name]).map PathStep.name).dropLast = names.map .name := by
      rw [List.map_append]
      exact List.dropLast_concat
    have horigin : origin [] ⟨true, (names ++ [name]).map .name⟩ = [] := rfl
    cases hwalk : t.walk? [] (names.map .name) with
    | none =>
      refine Or.inr ⟨.missing, ?_⟩
      rw [write, hlast, hfront, horigin, hwalk]
    | some folder =>
      obtain rfl : folder = names := eq_append_of_walk?_names hwalk
      have hwrite : t.write [] ⟨true, (folder ++ [name]).map .name⟩ text
          = t.writeIn folder name text := by
        rw [write, hlast, hfront, horigin, hwalk]
      rw [hwrite]
      rcases writeIn_cases folder name text t with hok | hfault
      · exact Or.inl ⟨List.append_ne_nil_of_right_ne_nil _ (List.cons_ne_nil _ _), hok⟩
      · exact Or.inr hfault

end FileTree

namespace Project

open FileTree (Widens write_names_cases widens_makeFolders)

/-! ## §3. Written files -/

/-- One tree is another with files written below a folder: these hold what is written, and any
    other file is as it was. -/
structure Saved (folder : Place) (files : List (List String × String)) (t t' : FileTree) :
    Prop where
  written : ∀ file ∈ files, t'.fileText? (folder ++ file.1) = some file.2
  kept : ∀ place, (∀ file ∈ files, place ≠ folder ++ file.1) →
    t'.fileText? place = t.fileText? place

theorem Saved.of_widens {t t' : FileTree} (h : t.Widens t') (folder : Place) :
    Saved folder [] t t' where
  written := fun _ hfile => absurd hfile List.not_mem_nil
  kept := fun place _ => h.fileText?_eq place

/-- Folders that are made before do not matter. -/
theorem Saved.after {folder : Place} {files : List (List String × String)}
    {t t' t'' : FileTree} (h : t.Widens t') (h' : Saved folder files t' t'') :
    Saved folder files t t'' where
  written := h'.written
  kept := fun place hplace => (h'.kept place hplace).trans (h.fileText?_eq place)

/-- No file is lost, though one may hold something else. -/
theorem Saved.isSome_fileText? {folder : Place} {files : List (List String × String)}
    {t t' : FileTree} (h : Saved folder files t t') {place : Place}
    (hplace : (t.fileText? place).isSome = true) : (t'.fileText? place).isSome = true := by
  by_cases hfiles : ∀ file ∈ files, place ≠ folder ++ file.1
  · rw [h.kept place hfiles]
    exact hplace
  · push Not at hfiles
    obtain ⟨file, hfile, rfl⟩ := hfiles
    rw [h.written file hfile]
    rfl

/-- **All files are kept just if those that are written held before what is written.** -/
theorem Saved.keeps_iff {folder : Place} {files : List (List String × String)}
    {t t' : FileTree} (h : Saved folder files t t') :
    (∀ place text, t.fileText? place = some text → t'.fileText? place = some text)
      ↔ ∀ file ∈ files, ∀ text, t.fileText? (folder ++ file.1) = some text → text = file.2 := by
  constructor
  · intro hkeeps file hfile text htext
    exact Option.some.inj ((hkeeps _ text htext).symm.trans (h.written file hfile))
  · intro hsame place text htext
    by_cases hfiles : ∀ file ∈ files, place ≠ folder ++ file.1
    · rw [h.kept place hfiles]
      exact htext
    · push Not at hfiles
      obtain ⟨file, hfile, rfl⟩ := hfiles
      rw [h.written file hfile, hsame file hfile text htext]

/-- One more file in front of files at other places. -/
theorem Saved.cons {folder : Place} {names : List String} {text : String}
    {files : List (List String × String)} {t t' : FileTree} (hne : folder ++ names ≠ [])
    (hnames : names ∉ files.map Prod.fst)
    (h : Saved folder files (t.set (folder ++ names) (.file text)) t') :
    Saved folder ((names, text) :: files) t t' where
  written := by
    intro file hfile
    rcases List.mem_cons.1 hfile with rfl | hmem
    · -- the files behind it are written elsewhere
      rw [h.kept (folder ++ names) fun other hother heq => ?_]
      · exact FileTree.fileText?_set_file hne text t
      · rw [List.append_cancel_left heq] at hnames
        exact hnames (List.mem_map_of_mem hother)
    · exact h.written file hmem
  kept := by
    intro place hplace
    rw [h.kept place fun file hfile => hplace file (List.mem_cons_of_mem _ hfile)]
    exact FileTree.fileText?_set_file_of_ne (hplace _ List.mem_cons_self) text t

/-- **Writing files leaves a first part of them written**, and all of them if it succeeds. -/
theorem exists_saved_of_writeFiles (folder : Place) {files : List (List String × String)}
    (hnodup : (files.map Prod.fst).Nodup) (t : FileTree) :
    ∃ done, done <+: files ∧ Saved folder done t (writeFiles folder files t).2 ∧
      ((writeFiles folder files t).1 = .ok () → done = files) := by
  induction files generalizing t with
  | nil => exact ⟨[], List.nil_prefix, Saved.of_widens (Widens.refl t) folder, fun _ => rfl⟩
  | cons file rest ih =>
    obtain ⟨names, text⟩ := file
    obtain ⟨hnames, hrest⟩ := List.nodup_cons.1 hnodup
    rw [writeFiles]
    rcases write_names_cases (folder ++ names) text t with ⟨hne, hok⟩ | ⟨fault, hfault⟩
    · obtain ⟨done, hdone, hsaved, hall⟩ := ih hrest (t.set (folder ++ names) (.file text))
      rw [hok]
      have hnames' : names ∉ done.map Prod.fst := fun hmem =>
        hnames ((hdone.map Prod.fst).subset hmem)
      exact ⟨(names, text) :: done, List.cons_prefix_cons.2 ⟨rfl, hdone⟩,
        hsaved.cons hne hnames', fun h => congrArg _ (hall h)⟩
    · rw [hfault]
      refine ⟨[], List.nil_prefix, Saved.of_widens (Widens.refl t) folder, fun h => ?_⟩
      cases h

/-! ## §4. Starting a project -/

theorem nodup_initialFiles (name : String) : ((initialFiles name).map Prod.fst).Nodup := by
  show [[configFile], [standardSourceRoot, paletteFile], [standardSourceRoot, themeFile],
    [ignoreFile]].Nodup
  decide

/-- Behind the folders, a project is created by writing its files. -/
theorem create_of_made {folder : Place} {path name : String} {t t' : FileTree}
    (hfree : ¬ (t.node? (folder ++ [configFile])).isSome = true)
    (hmade : t.makeFolders folder (.parse standardSourceRoot) = (.ok (), t')) :
    create folder path name t = ((writeFiles folder (initialFiles name) t').1.mapError .file,
      (writeFiles folder (initialFiles name) t').2) := by
  rw [create, if_neg hfree, hmade]
  dsimp only
  rcases writeFiles folder (initialFiles name) t' with ⟨written, t''⟩
  cases written <;> rfl

theorem create_of_unmade {folder : Place} {path name : String} {t t' : FileTree}
    {fault : FileFault} (hfree : ¬ (t.node? (folder ++ [configFile])).isSome = true)
    (hmade : t.makeFolders folder (.parse standardSourceRoot) = (.error fault, t')) :
    create folder path name t = (.error (.file fault), t') := by
  rw [create, if_neg hfree, hmade]

/-- A project is created by writing a first part of its files, none of them where there is a
    configuration and all of them where it succeeds. -/
theorem exists_saved_of_create (folder : Place) (path name : String) (t : FileTree) :
    ∃ done, done <+: initialFiles name ∧ Saved folder done t (create folder path name t).2 ∧
      ((t.node? (folder ++ [configFile])).isSome = true → done = []) ∧
      (fault? (create folder path name t).1 = none → done = initialFiles name) := by
  by_cases hconfigured : (t.node? (folder ++ [configFile])).isSome = true
  · obtain ⟨node, hnode⟩ := Option.isSome_iff_exists.1 hconfigured
    rw [create_of_configured hnode]
    exact ⟨[], List.nil_prefix, Saved.of_widens (Widens.refl t) folder, fun _ => rfl,
      fun h => absurd h (Option.some_ne_none _)⟩
  · have hwidens := widens_makeFolders folder (.parse standardSourceRoot) t
    rcases hmade : t.makeFolders folder (.parse standardSourceRoot) with ⟨made, t'⟩
    rw [hmade] at hwidens
    cases made with
    | error fault =>
      rw [create_of_unmade hconfigured hmade]
      exact ⟨[], List.nil_prefix, Saved.of_widens hwidens folder, fun _ => rfl,
        fun h => absurd h (Option.some_ne_none _)⟩
    | ok _ =>
      rw [create_of_made hconfigured hmade]
      obtain ⟨done, hdone, hsaved, hall⟩ :=
        exists_saved_of_writeFiles folder (nodup_initialFiles name) t'
      refine ⟨done, hdone, hsaved.after hwidens, fun h => absurd h hconfigured, fun h => hall ?_⟩
      cases hwritten : (writeFiles folder (initialFiles name) t').1 with
      | error fault =>
        rw [hwritten] at h
        exact absurd h (Option.some_ne_none _)
      | ok _ => rfl

/-- The folder that a project is started in: the place that its path leads to once the folders on
    it are made. -/
def projectFolder (path : String) (w : Workspace) : Place :=
  ((w.tree.makeFolders w.here (.parse path)).2.locate? w.here (.parse path)).getD []

/-- Behind its folders, a project is started by creating it. -/
theorem start_of_made {path : String} {w : Workspace} {t : FileTree}
    (hmade : w.tree.makeFolders w.here (.parse path) = (.ok (), t)) (name? : Option String) :
    ∃ name, (start path name? w).workspace.tree = (create (projectFolder path w) path name t).2 ∧
      (start path name? w).failure = fault? (create (projectFolder path w) path name t).1 := by
  refine ⟨name?.getD ((projectFolder path w).getLast?.getD standardName), ?_⟩
  unfold start projectFolder
  rw [hmade]
  dsimp only
  rcases create _ path _ t with ⟨created, t'⟩
  cases created <;> exact ⟨rfl, rfl⟩

/-- **Starting a project writes a first part of its files.** -/
theorem exists_saved_of_start (path : String) (name? : Option String) (w : Workspace) :
    ∃ name done, done <+: initialFiles name ∧
      Saved (projectFolder path w) done w.tree (start path name? w).workspace.tree ∧
      ((w.tree.node? (projectFolder path w ++ [configFile])).isSome = true → done = []) ∧
      ((start path name? w).failure = none → done = initialFiles name) := by
  have hwidens := widens_makeFolders w.here (.parse path) w.tree
  rcases hmade : w.tree.makeFolders w.here (.parse path) with ⟨made, t⟩
  rw [hmade] at hwidens
  cases made with
  | error fault =>
    have hstart : start path name? w
        = { lines := [], failure := some (.folder path), workspace := { w with tree := t } } := by
      rw [start, hmade]
    rw [hstart]
    exact ⟨"", [], List.nil_prefix, Saved.of_widens hwidens _, fun _ => rfl,
      fun h => absurd h (Option.some_ne_none _)⟩
  | ok _ =>
    obtain ⟨name, htree, hfailure⟩ := start_of_made hmade name?
    obtain ⟨done, hdone, hsaved, hconfigured, hall⟩ :=
      exists_saved_of_create (projectFolder path w) path name t
    rw [htree, hfailure]
    exact ⟨name, done, hdone, hsaved.after hwidens,
      fun h => hconfigured (hwidens.isSome_node? h), hall⟩

/-! ## §5. What is kept -/

/-- The places below a folder where files are written without a look at what is there. -/
def starterPlaces (folder : Place) : List Place :=
  [[standardSourceRoot, paletteFile], [standardSourceRoot, themeFile], [ignoreFile]].map
    (folder ++ ·)

/-- The files after a project has been started from the command line, or has not been. -/
def filesOfInit (path : String) (name? : Option String) (w : Workspace) : FileTree :=
  (Cli.runCommand (.init path name?) w).2.tree

/-- Where there is a file there is something. -/
theorem isSome_node?_of_fileText? {t : FileTree} {place : Place} {text : String}
    (h : t.fileText? place = some text) : (t.node? place).isSome = true := by
  cases hnode : t.node? place with
  | none =>
    rw [FileTree.fileText?, hnode] at h
    cases h
  | some node => rfl

/-- **Which files are kept when a project is started.**  No file is gone afterwards, and all hold
    what they held but for the starting documents and the list of what is not to be kept.  Exactly
    a first part of the files of the new project is written: none of them where there is a
    configuration, and all of them if the command succeeds.  So nothing is destroyed just if the
    files written over held before what is written. -/
theorem init_overwrites_starters (path : String) (name? : Option String) (w : Workspace) :
    (∀ place, (w.tree.fileText? place).isSome = true →
      ((filesOfInit path name? w).fileText? place).isSome = true) ∧
    (∀ place text, w.tree.fileText? place = some text →
      place ∉ starterPlaces (projectFolder path w) →
      (filesOfInit path name? w).fileText? place = some text) ∧
    ∃ name done, done <+: initialFiles name ∧
      Saved (projectFolder path w) done w.tree (filesOfInit path name? w) ∧
      ((w.tree.node? (projectFolder path w ++ [configFile])).isSome = true → done = []) ∧
      ((Cli.runCommand (.init path name?) w).1.exitCode = 0 → done = initialFiles name) ∧
      ((∀ place text, w.tree.fileText? place = some text →
          (filesOfInit path name? w).fileText? place = some text)
        ↔ ∀ file ∈ done, ∀ text,
          w.tree.fileText? (projectFolder path w ++ file.1) = some text → text = file.2) := by
  obtain ⟨name, done, hdone, hsaved, hconfigured, hall⟩ := exists_saved_of_start path name? w
  have hcode : (Cli.runCommand (.init path name?) w).1.exitCode
      = if (start path name? w).failure.isNone then 0 else 1 := Cli.exitCode_ofReport _ _
  refine ⟨fun place hplace => hsaved.isSome_fileText? hplace, fun place text htext hplace => ?_,
    name, done, hdone, hsaved, hconfigured, fun hzero => hall ?_, hsaved.keeps_iff⟩
  · refine (hsaved.kept place fun file hfile heq => ?_).trans htext
    subst heq
    -- the only other file that is written is the configuration, and there was none
    have hmem := hdone.subset hfile
    simp only [initialFiles, List.mem_cons, List.not_mem_nil, or_false] at hmem
    rcases hmem with rfl | rfl | rfl | rfl
    · rw [hconfigured (isSome_node?_of_fileText? htext)] at hfile
      cases hfile
    · exact hplace (List.mem_map_of_mem (by decide))
    · exact hplace (List.mem_map_of_mem (by decide))
    · exact hplace (List.mem_map_of_mem (by decide))
  · cases hfailure : (start path name? w).failure with
    | none => rfl
    | some fault =>
      rw [hcode, hfailure] at hzero
      cases hzero

/-- A folder with nothing but a list of what is not to be kept. -/
def listedWorkspace : Workspace where
  tree := ⟨[(["work"], .folder), (["work", ignoreFile], .file "node_modules/\n")]⟩
  here := ["work"]

/-- **A list is lost.**  A project is started in the folder, which has no configuration, and the
    command succeeds; the file is still there and holds something else. -/
theorem ignoreList_lost :
    listedWorkspace.tree.fileText? ["work", ignoreFile] = some "node_modules/\n" ∧
    (Cli.runCommand (.init "." (some "demo")) listedWorkspace).1.exitCode = 0 ∧
    (filesOfInit "." (some "demo") listedWorkspace).fileText? ["work", ignoreFile]
      = some ignoreText ∧
    ignoreText ≠ "node_modules/\n" := by
  decide +kernel

end Project

end DesignTokens
