/-
  DesignTokens.Build.Builder — building a document.

  The imports of a document are spliced into its data, its patches are applied in order, the
  keys of the imports are dropped again, and what is left is filtered by the declared exports.
  A document that exports nothing is not built at all.  What has been built is remembered by
  path, so a document that is imported from several places is built once.

  Building passes its state along, also where it fails: what was built before a failure stays
  built, and a build that fails is not remembered.

  Main facts:
    * `build_of_memo` — a document that has been built is not built again.
-/
import DesignTokens.Patch.Apply
import DesignTokens.Source.Basic

namespace DesignTokens

/-! ## §1. Failures -/

/-- Why a document cannot be built. -/
inductive BuildError where
  | imported (path : DocPath) (key : String) (fault : BuildError)
  /-- The patch at a place, counted from one, failed. -/
  | patch (path : DocPath) (index : Nat) (name : Option String) (fault : PatchError)
  | exports (path : DocPath) (fault : ExportError)
deriving Repr, DecidableEq

namespace BuildError

/-- The document in which the innermost failure happened. -/
def path : BuildError → DocPath
  | .imported _ _ fault => fault.path
  | .patch path .. => path
  | .exports path _ => path

/-- The text of a failure. -/
def message : BuildError → String
  | .imported path key _ => "failed to build import `" ++ key ++ "` of " ++ path.text
  | .patch path index none _ => "patch " ++ toString index ++ " failed in " ++ path.text
  | .patch path index (some name) _ =>
    "patch " ++ toString index ++ " (`" ++ name ++ "`) failed in " ++ path.text
  | .exports path _ => "invalid exports in " ++ path.text

/-- The texts of what lies behind a failure, the outermost first. -/
def causes : BuildError → List String
  | .imported _ _ fault => fault.message :: fault.causes
  | .patch _ _ _ fault => fault.message :: fault.causes
  | .exports _ fault => [fault.message]

end BuildError

/-! ## §2. One document -/

namespace Build

/-- Puts a value under a key of an object. -/
def splice (key : String) (value doc : Tree) : Tree :=
  match doc with
  | .obj fields => .obj (Entries.put key value fields)
  | other => other

/-- Drops keys of an object. -/
def dropKeys (keys : List String) (doc : Tree) : Tree :=
  match doc with
  | .obj fields => .obj (keys.foldl (fun kept key => Entries.erase key kept) fields)
  | other => other

/-- Applies patches in order; `index` is the place of the first. -/
def applyPatches (strict : Bool) (path : DocPath) (index : Nat) :
    List Patch → Tree → Except BuildError Tree
  | [], doc => .ok doc
  | p :: rest, doc => do
    let doc ← (p.apply strict doc).mapError (.patch path index p.name)
    applyPatches strict path (index + 1) rest doc

/-- What is left to do once the imports are spliced in. -/
def finish (strict : Bool) (s : Source) (filter : ExportFilter) (doc : Tree) :
    Except BuildError Tree := do
  let patches := (s.directives.map (·.patches)).getD []
  let doc ← applyPatches strict s.path 1 patches doc
  return filter.filter (dropKeys (s.imports.map Prod.fst) doc)

end Build

/-! ## §3. Building -/

/-- What has been built so far. -/
structure BuildState where
  /-- The results by path, in the order in which they were reached; a document that exports
      nothing has none. -/
  memo : List (DocPath × Option Tree)
  /-- The documents for which the work was done, in the order in which it was started. -/
  started : List DocPath
deriving Repr, DecidableEq

namespace BuildState

/-- The state in which nothing has been built. -/
def empty : BuildState := { memo := [], started := [] }

/-- The result for a path, if it has been built. -/
def built? (state : BuildState) (path : DocPath) : Option (Option Tree) :=
  Entries.get? path state.memo

/-- The state in which the work for one more document has been started. -/
def noteStart (state : BuildState) (path : DocPath) : BuildState :=
  { state with started := state.started ++ [path] }

/-- The state with one more result. -/
def remember (state : BuildState) (path : DocPath) (result : Option Tree) : BuildState :=
  { state with memo := Entries.put path result state.memo }

end BuildState

namespace Source

/-- The filter that the exports of a document ask for, if it exports anything. -/
def exportFilter? (s : Source) : Except BuildError (Option ExportFilter) :=
  match s.exportPatterns? with
  | none => .ok none
  | some patterns =>
    match ExportFilter.compile patterns with
    | .error fault => .error (.exports s.path fault)
    | .ok filter => .ok (some filter)

mutual

/-- Builds a document, unless that has been done. -/
def build (strict : Bool) (s : Source) (state : BuildState) :
    Except BuildError (Option Tree) × BuildState :=
  match state.built? s.path with
  | some result => (.ok result, state)
  | none =>
    match s with
    | .mk location data directives imports =>
      let s := Source.mk location data directives imports
      let state := state.noteStart s.path
      match s.exportFilter? with
      | .error e => (.error e, state)
      | .ok none => (.ok none, state.remember s.path none)
      | .ok (some filter) =>
        match spliceImports strict s.path imports data state with
        | (.error e, state) => (.error e, state)
        | (.ok doc, state) =>
          match Build.finish strict s filter doc with
          | .error e => (.error e, state)
          | .ok result => (.ok (some result), state.remember s.path (some result))

/-- Splices imports into a document, one after the other.  An import that exports nothing is
    left out. -/
def spliceImports (strict : Bool) (path : DocPath) (imports : List (String × Source × Bool))
    (doc : Tree) (state : BuildState) : Except BuildError Tree × BuildState :=
  match imports with
  | [] => (.ok doc, state)
  | (key, source, true) :: rest =>
    match build strict source state with
    | (.error e, state) => (.error (.imported path key e), state)
    | (.ok none, state) => spliceImports strict path rest doc state
    | (.ok (some value), state) =>
      spliceImports strict path rest (Build.splice key value doc) state
  | (key, source, false) :: rest =>
    spliceImports strict path rest (Build.splice key source.data doc) state

end

/-! ## §4. The ways in which a build ends -/

section Outcomes

variable {strict : Bool} {s : Source} {state next : BuildState} {filter : ExportFilter}
  {doc : Tree} {e : BuildError}

/-- A document that has been built is not built again. -/
theorem build_of_memo {strict : Bool} {s : Source} {state : BuildState}
    {result : Option Tree} (h : state.built? s.path = some result) :
    s.build strict state = (.ok result, state) := by
  rw [Source.build.eq_def, h]

theorem build_of_refused (hnew : state.built? s.path = none)
    (hfilter : s.exportFilter? = .error e) :
    s.build strict state = (.error e, state.noteStart s.path) := by
  obtain ⟨location, data, directives, imports⟩ := s
  rw [build.eq_def, hnew]
  dsimp only
  rw [hfilter]

theorem build_of_silent (hnew : state.built? s.path = none)
    (hfilter : s.exportFilter? = .ok none) :
    s.build strict state = (.ok none, (state.noteStart s.path).remember s.path none) := by
  obtain ⟨location, data, directives, imports⟩ := s
  rw [build.eq_def, hnew]
  dsimp only
  rw [hfilter]

/-- A document that exports something is finished once its imports are spliced in. -/
theorem build_of_filter (hnew : state.built? s.path = none)
    (hfilter : s.exportFilter? = .ok (some filter)) :
    s.build strict state =
      match spliceImports strict s.path s.imports s.data (state.noteStart s.path) with
      | (.error e, next) => (.error e, next)
      | (.ok doc, next) =>
        match Build.finish strict s filter doc with
        | .error e => (.error e, next)
        | .ok result => (.ok (some result), next.remember s.path (some result)) := by
  obtain ⟨location, data, directives, imports⟩ := s
  rw [build.eq_def, hnew]
  dsimp only
  rw [hfilter]
  rfl

theorem build_of_unspliced (hnew : state.built? s.path = none)
    (hfilter : s.exportFilter? = .ok (some filter))
    (hsplice : spliceImports strict s.path s.imports s.data (state.noteStart s.path)
      = (.error e, next)) :
    s.build strict state = (.error e, next) := by
  rw [build_of_filter hnew hfilter, hsplice]

theorem build_of_unfinished (hnew : state.built? s.path = none)
    (hfilter : s.exportFilter? = .ok (some filter))
    (hsplice : spliceImports strict s.path s.imports s.data (state.noteStart s.path)
      = (.ok doc, next))
    (hfinish : Build.finish strict s filter doc = .error e) :
    s.build strict state = (.error e, next) := by
  rw [build_of_filter hnew hfilter, hsplice]
  dsimp only
  rw [hfinish]

theorem build_of_finished {result : Tree} (hnew : state.built? s.path = none)
    (hfilter : s.exportFilter? = .ok (some filter))
    (hsplice : spliceImports strict s.path s.imports s.data (state.noteStart s.path)
      = (.ok doc, next))
    (hfinish : Build.finish strict s filter doc = .ok result) :
    s.build strict state = (.ok (some result), next.remember s.path (some result)) := by
  rw [build_of_filter hnew hfilter, hsplice]
  dsimp only
  rw [hfinish]

variable {path : DocPath} {key : String} {source : Source} {value : Tree}
  {rest : List (String × Source × Bool)}

theorem spliceImports_nil : spliceImports strict path [] doc state = (.ok doc, state) := by
  rw [spliceImports]

theorem spliceImports_of_failed (hbuild : source.build strict state = (.error e, next)) :
    spliceImports strict path ((key, source, true) :: rest) doc state
      = (.error (.imported path key e), next) := by
  rw [spliceImports, hbuild]

theorem spliceImports_of_silent (hbuild : source.build strict state = (.ok none, next)) :
    spliceImports strict path ((key, source, true) :: rest) doc state
      = spliceImports strict path rest doc next := by
  rw [spliceImports, hbuild]

theorem spliceImports_of_built (hbuild : source.build strict state = (.ok (some value), next)) :
    spliceImports strict path ((key, source, true) :: rest) doc state
      = spliceImports strict path rest (Build.splice key value doc) next := by
  rw [spliceImports, hbuild]

theorem spliceImports_raw :
    spliceImports strict path ((key, source, false) :: rest) doc state
      = spliceImports strict path rest (Build.splice key source.data doc) state := by
  rw [spliceImports]

end Outcomes

/-! ## §5. Induction over builds -/

/-- What holds of every build, by the ways in which a build can end.  `P` speaks about a build
    and `Q` about the imports of a document; the last component is the outcome with the new
    state. -/
theorem building_induction {strict : Bool}
    {P : Source → BuildState → Except BuildError (Option Tree) × BuildState → Prop}
    {Q : DocPath → List (String × Source × Bool) → Tree → BuildState →
      Except BuildError Tree × BuildState → Prop}
    (memoized : ∀ s state result, state.built? s.path = some result →
      P s state (.ok result, state))
    (refused : ∀ s state e, state.built? s.path = none → s.exportFilter? = .error e →
      P s state (.error e, state.noteStart s.path))
    (silent : ∀ s state, state.built? s.path = none → s.exportFilter? = .ok none →
      P s state (.ok none, (state.noteStart s.path).remember s.path none))
    (unspliced : ∀ s state filter e next, state.built? s.path = none →
      s.exportFilter? = .ok (some filter) →
      Q s.path s.imports s.data (state.noteStart s.path) (.error e, next) →
      P s state (.error e, next))
    (unfinished : ∀ s state filter doc e next, state.built? s.path = none →
      s.exportFilter? = .ok (some filter) →
      Q s.path s.imports s.data (state.noteStart s.path) (.ok doc, next) →
      Build.finish strict s filter doc = .error e → P s state (.error e, next))
    (finished : ∀ s state filter doc result next, state.built? s.path = none →
      s.exportFilter? = .ok (some filter) →
      Q s.path s.imports s.data (state.noteStart s.path) (.ok doc, next) →
      Build.finish strict s filter doc = .ok result →
      P s state (.ok (some result), next.remember s.path (some result)))
    (nil : ∀ path doc state, Q path [] doc state (.ok doc, state))
    (headFailed : ∀ path key source rest doc state e next,
      P source state (.error e, next) →
      Q path ((key, source, true) :: rest) doc state (.error (.imported path key e), next))
    (headSilent : ∀ path key source rest doc state mid r,
      P source state (.ok none, mid) → Q path rest doc mid r →
      Q path ((key, source, true) :: rest) doc state r)
    (headBuilt : ∀ path key source rest doc state value mid r,
      P source state (.ok (some value), mid) → Q path rest (Build.splice key value doc) mid r →
      Q path ((key, source, true) :: rest) doc state r)
    (headRaw : ∀ path key source rest doc state r,
      Q path rest (Build.splice key source.data doc) state r →
      Q path ((key, source, false) :: rest) doc state r) :
    (∀ s state, P s state (s.build strict state)) ∧
      (∀ path imports doc state,
        Q path imports doc state (spliceImports strict path imports doc state)) := by
  -- the cases of the recursion, each rewritten to the outcome it stands for
  apply build.mutual_induct
  case case1 =>
    intro s state result hmemo
    rw [build_of_memo hmemo]
    exact memoized s state result hmemo
  case case2 =>
    intro state location data directives imports s e hfilter hnew
    rw [build_of_refused hnew hfilter]
    exact refused s state e hnew hfilter
  case case3 =>
    intro state location data directives imports s hfilter hnew
    rw [build_of_silent hnew hfilter]
    exact silent s state hnew hfilter
  case case4 =>
    intro state location data directives imports s started filter hfilter e next hsplice hnew ih
    rw [hsplice] at ih
    rw [build_of_unspliced hnew hfilter hsplice]
    exact unspliced s state filter e next hnew hfilter ih
  case case5 =>
    intro state location data directives imports s started filter hfilter doc next hsplice e
      hfinish hnew ih
    rw [hsplice] at ih
    rw [build_of_unfinished hnew hfilter hsplice hfinish]
    exact unfinished s state filter doc e next hnew hfilter ih hfinish
  case case6 =>
    intro state location data directives imports s started filter hfilter doc next hsplice result
      hfinish hnew ih
    rw [hsplice] at ih
    rw [build_of_finished hnew hfilter hsplice hfinish]
    exact finished s state filter doc result next hnew hfilter ih hfinish
  case case7 =>
    intro path doc state
    rw [spliceImports_nil]
    exact nil path doc state
  case case8 =>
    intro path doc state key source rest e next hbuild ih
    rw [hbuild] at ih
    rw [spliceImports_of_failed hbuild]
    exact headFailed path key source rest doc state e next ih
  case case9 =>
    intro path doc state key source rest mid hbuild ih₁ ih₂
    rw [hbuild] at ih₁
    rw [spliceImports_of_silent hbuild]
    exact headSilent path key source rest doc state mid _ ih₁ ih₂
  case case10 =>
    intro path doc state key source rest value mid hbuild ih₁ ih₂
    rw [hbuild] at ih₁
    rw [spliceImports_of_built hbuild]
    exact headBuilt path key source rest doc state value mid _ ih₁ ih₂
  case case11 =>
    intro path doc state key source rest ih
    rw [spliceImports_raw]
    exact headRaw path key source rest doc state _ ih

end Source

end DesignTokens
