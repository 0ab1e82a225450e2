/-
  DesignTokens.Source.Loader — loading a document with everything it imports.

  References are resolved against one root, whichever document they stand in, and must not lead
  out of it.  A document that is imported from several places is loaded once.  A document that
  is being loaded further up the chain of imports cannot be imported again.

  Loading passes its state along, also where it fails, so that what has been loaded before a
  failure stays loaded.  Documents come from a finite table, and a chain never names a document
  twice; the number of documents that are not on the chain bounds the depth of the recursion.

  Main facts:
    * `locate_ok` — what holds of the path of a reference that may be followed.
    * `unvisited_append_lt` — every step down the chain leaves fewer documents.
    * `loading_induction` — what holds of every load, by the ways in which a load can end.
-/
import DesignTokens.Format.Basic
import DesignTokens.Source.Basic

namespace DesignTokens

/-! ## §1. Where documents come from -/

/-- The way to find, read and understand documents. -/
structure SourceIo where
  /-- The path that a reference means under a root, or why it means none. -/
  resolve : String → DocPath → Except String DocPath
  /-- The documents that can be read. -/
  files : List (DocPath × ByteArray)
  /-- The tree that a document holds. -/
  parse : ByteArray → DocPath → Except Format.FormatError Tree

namespace SourceIo

/-- The bytes of a document. -/
def read (io : SourceIo) (path : DocPath) : Option ByteArray :=
  (io.files.find? fun file => file.1 = path).map Prod.snd

/-- Documents from a table of paths, read in the format of their names.  Of several documents
    with one path the last counts. -/
def ofFiles (files : List (DocPath × ByteArray)) : SourceIo where
  resolve file root := .ok (root.resolve file)
  files := files.reverse
  parse := Format.parse

theorem mem_of_read {io : SourceIo} {path : DocPath} {bytes : ByteArray}
    (h : io.read path = some bytes) : path ∈ io.files.map Prod.fst := by
  rw [read, Option.map_eq_some_iff] at h
  obtain ⟨file, hfile, -⟩ := h
  have hpath : file.1 = path := by simpa using List.find?_some hfile
  exact List.mem_map.2 ⟨file, List.mem_of_find?_eq_some hfile, hpath⟩

end SourceIo

/-! ## §2. Failures -/

/-- Why a document cannot be loaded.  The trace is the chain of documents that led there, the
    outermost first. -/
inductive LoadError where
  | resolve (file : String) (trace : List DocPath) (reason : String)
  | read (path : DocPath) (trace : List DocPath)
  | parse (path : DocPath) (trace : List DocPath) (fault : Format.FormatError)
  | schema (path : DocPath) (trace : List DocPath) (fault : SchemaError)
  | outsideRoot (path root : DocPath) (trace : List DocPath)
  /-- The chain ends with a document that stands in it before. -/
  | circularImport (chain : List DocPath)
deriving Repr, DecidableEq

namespace LoadError

/-- The text of a trace, the innermost document first. -/
def traceText : List DocPath → String
  | [] => ""
  | trace => " (imported from " ++ " <- ".intercalate (trace.reverse.map DocPath.text) ++ ")"

/-- The text of a failure. -/
def message : LoadError → String
  | .resolve file trace _ => "failed to resolve `" ++ file ++ "`" ++ traceText trace
  | .read path trace => "failed to read " ++ path.text ++ traceText trace
  | .parse path trace _ => "failed to parse " ++ path.text ++ traceText trace
  | .schema path trace _ => "invalid document " ++ path.text ++ traceText trace
  | .outsideRoot path root trace =>
    path.text ++ " is outside the source root " ++ root.text ++ traceText trace
  | .circularImport chain => "circular import: " ++ " -> ".intercalate (chain.map DocPath.text)

/-- The texts of what lies behind a failure. -/
def causes : LoadError → List String
  | .resolve _ _ reason => [reason]
  | .read path _ => ["no document at " ++ path.text]
  | .parse _ _ fault => fault.message?.toList
  | .schema _ _ fault => [fault.message]
  | .outsideRoot .. | .circularImport _ => []

end LoadError

/-! ## §3. One document -/

/-- The imports that a document declares. -/
def Document.importSpecs (d : Document) : Entries ImportSpec :=
  (d.directives.map (·.imports)).getD []

/-- The way to load documents under one root. -/
structure Loader where
  io : SourceIo
  root : DocPath

namespace Loader

/-- The loader for a root. -/
def ofRoot (io : SourceIo) (root : String) : Loader :=
  { io, root := (DocPath.parse root).normalize }

/-- The path that a reference leads to, below a chain of documents.  It must not lead out of the
    root, nor back into the chain. -/
def locate (l : Loader) (chain : List DocPath) (file : String) : Except LoadError DocPath :=
  match l.io.resolve file l.root with
  | .error reason => .error (.resolve file chain reason)
  | .ok resolved =>
    let path := resolved.normalize
    if !path.within l.root then .error (.outsideRoot path l.root chain)
    else if path ∈ chain then .error (.circularImport (chain ++ [path]))
    else .ok path

/-- Reads a document and takes it apart. -/
def fetch (l : Loader) (chain : List DocPath) (path : DocPath) : Except LoadError Document :=
  match l.io.read path with
  | none => .error (.read path chain)
  | some bytes =>
    match l.io.parse bytes path with
    | .error fault => .error (.parse path chain fault)
    | .ok raw => (Document.split raw).mapError (.schema path chain)

/-- A reference that means no path under the root is refused. -/
theorem locate_of_unresolved {l : Loader} {chain : List DocPath} {file reason : String}
    (h : l.io.resolve file l.root = .error reason) :
    l.locate chain file = .error (.resolve file chain reason) := by
  rw [locate, h]

section Resolved

variable {l : Loader} {chain : List DocPath} {file : String} {resolved : DocPath}
  (h : l.io.resolve file l.root = .ok resolved)

include h

/-- A reference that leads out of the root is refused. -/
theorem locate_of_outside (hwithin : resolved.normalize.within l.root = false) :
    l.locate chain file = .error (.outsideRoot resolved.normalize l.root chain) := by
  rw [locate, h]
  dsimp only
  rw [hwithin]
  rfl

/-- Inside the root, a reference that leads back into the chain is refused. -/
theorem locate_of_met (hwithin : resolved.normalize.within l.root = true)
    (hmet : resolved.normalize ∈ chain) :
    l.locate chain file = .error (.circularImport (chain ++ [resolved.normalize])) := by
  rw [locate, h]
  dsimp only
  rw [hwithin, if_pos hmet]
  rfl

/-- Any other reference may be followed. -/
theorem locate_of_new (hwithin : resolved.normalize.within l.root = true)
    (hnew : resolved.normalize ∉ chain) : l.locate chain file = .ok resolved.normalize := by
  rw [locate, h]
  dsimp only
  rw [hwithin, if_neg hnew]
  rfl

end Resolved

/-- A path that may be followed is folded, lies inside the root and does not stand on the
    chain. -/
theorem locate_ok {l : Loader} {chain : List DocPath} {file : String} {path : DocPath}
    (h : l.locate chain file = .ok path) :
    ∃ resolved, l.io.resolve file l.root = .ok resolved ∧ path = resolved.normalize ∧
      path.within l.root = true ∧ path ∉ chain := by
  rw [locate] at h
  split at h
  · simp at h
  next resolved hresolve =>
    dsimp only at h
    split at h
    · simp at h
    next hwithin =>
      split at h
      · simp at h
      next hchain =>
        obtain rfl : resolved.normalize = path := by simpa using h
        exact ⟨resolved, hresolve, rfl, by simpa using hwithin, hchain⟩

/-- A document that is fetched stands in the table. -/
theorem mem_of_fetch {l : Loader} {chain : List DocPath} {path : DocPath} {document : Document}
    (h : l.fetch chain path = .ok document) : path ∈ l.io.files.map Prod.fst := by
  rw [fetch] at h
  split at h
  · simp at h
  next bytes hread => exact SourceIo.mem_of_read hread

end Loader

/-! ## §4. The depth of a chain -/

/-- The documents of a table that do not stand on a chain. -/
def unvisited (files : List (DocPath × ByteArray)) (chain : List DocPath) : Nat :=
  (files.filter fun file => file.1 ∉ chain).length

/-- Every step down the chain leaves fewer documents. -/
theorem unvisited_append_lt {files : List (DocPath × ByteArray)} {chain : List DocPath}
    {path : DocPath} (hmem : path ∈ files.map Prod.fst) (hnew : path ∉ chain) :
    unvisited files (chain ++ [path]) < unvisited files chain := by
  simp only [unvisited, ← List.countP_eq_length_filter]
  obtain ⟨file, hfile, rfl⟩ := List.mem_map.1 hmem
  obtain ⟨front, back, rfl⟩ := List.append_of_mem hfile
  have hle : ∀ l : List (DocPath × ByteArray),
      l.countP (fun f => decide (f.1 ∉ chain ++ [file.1]))
        ≤ l.countP fun f => decide (f.1 ∉ chain) :=
    fun l => List.countP_mono_left fun f _ h => by simp_all
  have h₁ := hle front
  have h₂ := hle back
  simp only [List.countP_append, List.countP_cons] at h₁ h₂ ⊢
  simp [hnew]
  simp at h₁ h₂
  omega

/-! ## §5. Loading -/

/-- What a loader has done so far. -/
structure LoadState where
  /-- The loaded documents by path; imports stand in front of the documents that import them. -/
  cache : List (DocPath × Source)
  /-- The paths that were read, in order. -/
  reads : List DocPath

namespace LoadState

/-- The state in which nothing has been loaded. -/
def empty : LoadState := { cache := [], reads := [] }

/-- The loaded document at a path. -/
def find? (state : LoadState) (path : DocPath) : Option Source := Entries.get? path state.cache

/-- The state in which one more path has been read. -/
def noteRead (state : LoadState) (path : DocPath) : LoadState :=
  { state with reads := state.reads ++ [path] }

/-- The state in which one more document has been loaded. -/
def keep (state : LoadState) (path : DocPath) (source : Source) : LoadState :=
  { state with cache := Entries.put path source state.cache }

end LoadState

namespace Loader

/-- The source that a document becomes once its imports are loaded. -/
def sourceOf (l : Loader) (file : String) (path : DocPath) (document : Document)
    (imports : List (String × Source × Bool)) : Source :=
  .mk { root := l.root, file, path } document.data document.directives imports

mutual

/-- Loads the document that a reference means, below a chain of documents. -/
def loadIn (l : Loader) (chain : List DocPath) (file : String) (state : LoadState) :
    Except LoadError Source × LoadState :=
  match _hlocate : l.locate chain file with
  | .error e => (.error e, state)
  | .ok path =>
    match state.find? path with
    | some source => (.ok source, state)
    | none =>
      match _hfetch : l.fetch chain path with
      | .error e => (.error e, state.noteRead path)
      | .ok document =>
        match loadImports l (chain ++ [path]) document.importSpecs (state.noteRead path) with
        | (.error e, state) => (.error e, state)
        | (.ok imports, state) =>
          let source := l.sourceOf file path document imports
          (.ok source, state.keep path source)
termination_by (unvisited l.io.files chain, 0)
decreasing_by
  obtain ⟨-, -, -, -, hnew⟩ := locate_ok _hlocate
  exact Prod.Lex.left _ _ (unvisited_append_lt (mem_of_fetch _hfetch) hnew)

/-- Loads imports one after the other, below a chain of documents. -/
def loadImports (l : Loader) (chain : List DocPath) (specs : Entries ImportSpec)
    (state : LoadState) : Except LoadError (List (String × Source × Bool)) × LoadState :=
  match specs with
  | [] => (.ok [], state)
  | (key, spec) :: rest =>
    match loadIn l chain spec.source state with
    | (.error e, state) => (.error e, state)
    | (.ok source, state) =>
      match loadImports l chain rest state with
      | (.error e, state) => (.error e, state)
      | (.ok imports, state) => (.ok ((key, source, spec.build) :: imports), state)
termination_by (unvisited l.io.files chain, specs.length + 1)
decreasing_by
  · exact Prod.Lex.right _ (by simp)
  · exact Prod.Lex.right _ (by simp)

end

/-- Loads a document with everything it imports. -/
def load (l : Loader) (file : String) (state : LoadState) :
    Except LoadError Source × LoadState :=
  l.loadIn [] file state

/-! ## §6. The ways in which a load ends -/

section Outcomes

variable {l : Loader} {chain : List DocPath} {file : String} {state next : LoadState}
  {path : DocPath} {document : Document} {e : LoadError}

theorem loadIn_of_unlocated (hlocate : l.locate chain file = .error e) :
    l.loadIn chain file state = (.error e, state) := by
  rw [loadIn.eq_def, hlocate]

theorem loadIn_of_cached {source : Source} (hlocate : l.locate chain file = .ok path)
    (hfind : state.find? path = some source) :
    l.loadIn chain file state = (.ok source, state) := by
  rw [loadIn.eq_def, hlocate]
  dsimp only
  rw [hfind]

theorem loadIn_of_unfetched (hlocate : l.locate chain file = .ok path)
    (hfind : state.find? path = none) (hfetch : l.fetch chain path = .error e) :
    l.loadIn chain file state = (.error e, state.noteRead path) := by
  rw [loadIn.eq_def, hlocate]
  dsimp only
  rw [hfind, hfetch]

theorem loadIn_of_unlinked (hlocate : l.locate chain file = .ok path)
    (hfind : state.find? path = none) (hfetch : l.fetch chain path = .ok document)
    (himports : l.loadImports (chain ++ [path]) document.importSpecs (state.noteRead path)
      = (.error e, next)) :
    l.loadIn chain file state = (.error e, next) := by
  rw [loadIn.eq_def, hlocate]
  dsimp only
  rw [hfind, hfetch]
  dsimp only
  rw [himports]

theorem loadIn_of_linked {imports : List (String × Source × Bool)}
    (hlocate : l.locate chain file = .ok path)
    (hfind : state.find? path = none) (hfetch : l.fetch chain path = .ok document)
    (himports : l.loadImports (chain ++ [path]) document.importSpecs (state.noteRead path)
      = (.ok imports, next)) :
    l.loadIn chain file state
      = (.ok (l.sourceOf file path document imports),
          next.keep path (l.sourceOf file path document imports)) := by
  rw [loadIn.eq_def, hlocate]
  dsimp only
  rw [hfind, hfetch]
  dsimp only
  rw [himports]

@[simp] theorem loadImports_nil : l.loadImports chain [] state = (.ok [], state) := by
  rw [loadImports]

variable {key : String} {spec : ImportSpec} {rest : Entries ImportSpec}

theorem loadImports_of_headFailed (hhead : l.loadIn chain spec.source state = (.error e, next)) :
    l.loadImports chain ((key, spec) :: rest) state = (.error e, next) := by
  rw [loadImports, hhead]

theorem loadImports_of_tailFailed {source : Source} {mid : LoadState}
    (hhead : l.loadIn chain spec.source state = (.ok source, mid))
    (htail : l.loadImports chain rest mid = (.error e, next)) :
    l.loadImports chain ((key, spec) :: rest) state = (.error e, next) := by
  rw [loadImports, hhead]
  dsimp only
  rw [htail]

theorem loadImports_of_loaded {source : Source} {mid : LoadState}
    {imports : List (String × Source × Bool)}
    (hhead : l.loadIn chain spec.source state = (.ok source, mid))
    (htail : l.loadImports chain rest mid = (.ok imports, next)) :
    l.loadImports chain ((key, spec) :: rest) state
      = (.ok ((key, source, spec.build) :: imports), next) := by
  rw [loadImports, hhead]
  dsimp only
  rw [htail]

end Outcomes

/-! ## §7. Induction over loads -/

/-- What holds of every load, by the ways in which a load can end.  `P` speaks about a load and
    `Q` about the imports of a document; the last component is the outcome with the new state. -/
theorem loading_induction {l : Loader}
    {P : List DocPath → String → LoadState → Except LoadError Source × LoadState → Prop}
    {Q : List DocPath → Entries ImportSpec → LoadState →
      Except LoadError (List (String × Source × Bool)) × LoadState → Prop}
    (unlocated : ∀ chain file state e, l.locate chain file = .error e →
      P chain file state (.error e, state))
    (cached : ∀ chain file state path source, l.locate chain file = .ok path →
      state.find? path = some source → P chain file state (.ok source, state))
    (unfetched : ∀ chain file state path e, l.locate chain file = .ok path →
      state.find? path = none → l.fetch chain path = .error e →
      P chain file state (.error e, state.noteRead path))
    (unlinked : ∀ chain file state path document e next, l.locate chain file = .ok path →
      state.find? path = none → l.fetch chain path = .ok document →
      Q (chain ++ [path]) document.importSpecs (state.noteRead path) (.error e, next) →
      P chain file state (.error e, next))
    (loaded : ∀ chain file state path document imports next, l.locate chain file = .ok path →
      state.find? path = none → l.fetch chain path = .ok document →
      Q (chain ++ [path]) document.importSpecs (state.noteRead path) (.ok imports, next) →
      P chain file state (.ok (l.sourceOf file path document imports),
        next.keep path (l.sourceOf file path document imports)))
    (nil : ∀ chain state, Q chain [] state (.ok [], state))
    (headFailed : ∀ chain state key spec rest e next,
      P chain spec.source state (.error e, next) →
      Q chain ((key, spec) :: rest) state (.error e, next))
    (tailFailed : ∀ chain state key spec rest source mid e next,
      P chain spec.source state (.ok source, mid) → Q chain rest mid (.error e, next) →
      Q chain ((key, spec) :: rest) state (.error e, next))
    (cons : ∀ chain state key spec rest source mid imports next,
      P chain spec.source state (.ok source, mid) → Q chain rest mid (.ok imports, next) →
      Q chain ((key, spec) :: rest) state (.ok ((key, source, spec.build) :: imports), next)) :
    (∀ chain file state, P chain file state (l.loadIn chain file state)) ∧
      (∀ chain specs state, Q chain specs state (l.loadImports chain specs state)) := by
  apply loadIn.mutual_induct
  case case1 =>
    intro chain file state e hlocate
    rw [loadIn_of_unlocated hlocate]
    exact unlocated chain file state e hlocate
  case case2 =>
    intro chain file state path hlocate source hfind
    rw [loadIn_of_cached hlocate hfind]
    exact cached chain file state path source hlocate hfind
  case case3 =>
    intro chain file state path hlocate hfind e hfetch
    rw [loadIn_of_unfetched hlocate hfind hfetch]
    exact unfetched chain file state path e hlocate hfind hfetch
  case case4 =>
    intro chain file state path hlocate hfind document hfetch e next himports ih
    rw [himports] at ih
    rw [loadIn_of_unlinked hlocate hfind hfetch himports]
    exact unlinked chain file state path document e next hlocate hfind hfetch ih
  case case5 =>
    intro chain file state path hlocate hfind document hfetch imports next himports ih
    rw [himports] at ih
    rw [loadIn_of_linked hlocate hfind hfetch himports]
    exact loaded chain file state path document imports next hlocate hfind hfetch ih
  case case6 =>
    intro chain state
    rw [loadImports_nil]
    exact nil chain state
  case case7 =>
    intro chain state key spec rest e next hhead ih
    rw [hhead] at ih
    rw [loadImports_of_headFailed hhead]
    exact headFailed chain state key spec rest e next ih
  case case8 =>
    intro chain state key spec rest source mid hhead e next htail ih₁ ih₂
    rw [hhead] at ih₁
    rw [htail] at ih₂
    rw [loadImports_of_tailFailed hhead htail]
    exact tailFailed chain state key spec rest source mid e next ih₁ ih₂
  case case9 =>
    intro chain state key spec rest source mid hhead imports next htail ih₁ ih₂
    rw [hhead] at ih₁
    rw [htail] at ih₂
    rw [loadImports_of_loaded hhead htail]
    exact cons chain state key spec rest source mid imports next ih₁ ih₂

end Loader

end DesignTokens
