/-
  DesignTokens.Proofs.Source.Unfolding — what a reference means when nothing is remembered.

  A table of documents is a graph: a reference leads to a path, a path holds a document, and a
  document imports others.  A reference is unfolded by following the imports everywhere, however
  often a document is met.  This is loading without a cache; it has no state, so it says once
  for all what a reference means below a chain of documents.

  Main facts:
    * `locate_eq_ok_iff` — a reference may be followed where its path is not on the chain.
    * `imports_iff` — a document imports what its references lead to.
    * `fetch_eq_ok_iff` — what is read at a path does not depend on the chain.
    * `unfolding_induction` — what holds of every unfolding, by the ways in which it can end.
-/
import DesignTokens.Proofs.Outcome
import DesignTokens.Source.Loader

namespace DesignTokens.Loader

/-! ## §1. The graph of imports -/

/-- The path that a reference leads to, if it leads to a path inside the root. -/
def target? (l : Loader) (file : String) : Option DocPath := (l.locate [] file).toOption

/-- The document at a path, if it can be read and taken apart. -/
def document? (l : Loader) (path : DocPath) : Option Document := (l.fetch [] path).toOption

/-- The document at the first path imports the second one. -/
def Imports (l : Loader) (path imported : DocPath) : Prop :=
  ∃ document, l.document? path = some document ∧
    ∃ entry ∈ document.importSpecs, l.target? entry.2.source = some imported

variable {l : Loader} {chain : List DocPath} {file : String} {path : DocPath}
  {document : Document}

/-- Below a chain a reference leads to the path that it always leads to, unless that stands on
    the chain. -/
theorem locate_of_target (h : l.target? file = some path) :
    l.locate chain file =
      if path ∈ chain then .error (.circularImport (chain ++ [path])) else .ok path := by
  have hfree : l.locate [] file = .ok path := eq_ok_of_toOption h
  obtain ⟨resolved, hresolve, rfl, hwithin, -⟩ := locate_ok hfree
  split
  next hmet => exact locate_of_met hresolve hwithin hmet
  next hnew => exact locate_of_new hresolve hwithin hnew

theorem locate_eq_ok_iff :
    l.locate chain file = .ok path ↔ l.target? file = some path ∧ path ∉ chain := by
  constructor
  · intro h
    obtain ⟨resolved, hresolve, rfl, hwithin, hnew⟩ := locate_ok h
    refine ⟨?_, hnew⟩
    rw [target?, locate_of_new hresolve hwithin List.not_mem_nil]
    rfl
  · rintro ⟨htarget, hnew⟩
    rw [locate_of_target htarget, if_neg hnew]

/-- The chain only goes into the trace of a failure. -/
theorem fetch_eq_ok_iff : l.fetch chain path = .ok document ↔ l.document? path = some document := by
  -- both sides read the same bytes, and differ in the trace that a failure is given
  have hsame : (l.fetch chain path).toOption = (l.fetch [] path).toOption := by
    unfold fetch
    cases l.io.read path with
    | none => rfl
    | some bytes =>
      dsimp only
      cases l.io.parse bytes path with
      | error fault => rfl
      | ok raw =>
        dsimp only
        cases Document.split raw with
        | error fault => rfl
        | ok document => rfl
  constructor
  · intro h
    rw [document?, ← hsame, h]
    rfl
  · intro h
    exact eq_ok_of_toOption (hsame.trans h)

/-- The imports of a document that is there are those that it declares. -/
theorem imports_iff (hdocument : l.document? path = some document) {imported : DocPath} :
    l.Imports path imported ↔
      ∃ entry ∈ document.importSpecs, l.target? entry.2.source = some imported := by
  constructor
  · rintro ⟨document', hdocument', himports⟩
    obtain rfl : document = document' := Option.some.inj (hdocument.symm.trans hdocument')
    exact himports
  · exact fun himports => ⟨document, hdocument, himports⟩

/-! ## §2. Unfolding -/

mutual

/-- The source that a reference means below a chain of documents. -/
def unfoldIn (l : Loader) (chain : List DocPath) (file : String) : Except LoadError Source :=
  match _hlocate : l.locate chain file with
  | .error e => .error e
  | .ok path =>
    match _hfetch : l.fetch chain path with
    | .error e => .error e
    | .ok document =>
      match unfoldImports l (chain ++ [path]) document.importSpecs with
      | .error e => .error e
      | .ok imports => .ok (l.sourceOf file path document imports)
termination_by (unvisited l.io.files chain, 0)
decreasing_by
  obtain ⟨-, -, -, -, hnew⟩ := locate_ok _hlocate
  exact Prod.Lex.left _ _ (unvisited_append_lt (mem_of_fetch _hfetch) hnew)

/-- The sources that imports mean below a chain of documents. -/
def unfoldImports (l : Loader) (chain : List DocPath) (specs : Entries ImportSpec) :
    Except LoadError (List (String × Source × Bool)) :=
  match specs with
  | [] => .ok []
  | (key, spec) :: rest =>
    match unfoldIn l chain spec.source with
    | .error e => .error e
    | .ok source =>
      match unfoldImports l chain rest with
      | .error e => .error e
      | .ok imports => .ok ((key, source, spec.build) :: imports)
termination_by (unvisited l.io.files chain, specs.length + 1)
decreasing_by
  · exact Prod.Lex.right _ (by simp)
  · exact Prod.Lex.right _ (by simp)

end

/-- The source that a reference means. -/
def unfold (l : Loader) (file : String) : Except LoadError Source := l.unfoldIn [] file

section Outcomes

variable {e : LoadError}

theorem unfoldIn_of_unlocated (hlocate : l.locate chain file = .error e) :
    l.unfoldIn chain file = .error e := by
  rw [unfoldIn.eq_def, hlocate]

theorem unfoldIn_of_unfetched (hlocate : l.locate chain file = .ok path)
    (hfetch : l.fetch chain path = .error e) : l.unfoldIn chain file = .error e := by
  rw [unfoldIn.eq_def, hlocate]
  dsimp only
  rw [hfetch]

theorem unfoldIn_of_fetched (hlocate : l.locate chain file = .ok path)
    (hfetch : l.fetch chain path = .ok document) :
    l.unfoldIn chain file =
      (l.unfoldImports (chain ++ [path]) document.importSpecs).map
        (l.sourceOf file path document) := by
  rw [unfoldIn.eq_def, hlocate]
  dsimp only
  rw [hfetch]
  dsimp only
  cases l.unfoldImports (chain ++ [path]) document.importSpecs with
  | error e => rfl
  | ok imports => rfl

@[simp] theorem unfoldImports_nil : l.unfoldImports chain [] = .ok [] := by
  rw [unfoldImports]

variable {key : String} {spec : ImportSpec} {rest : Entries ImportSpec}

theorem unfoldImports_of_headFailed (hhead : l.unfoldIn chain spec.source = .error e) :
    l.unfoldImports chain ((key, spec) :: rest) = .error e := by
  rw [unfoldImports, hhead]

theorem unfoldImports_of_head {source : Source}
    (hhead : l.unfoldIn chain spec.source = .ok source) :
    l.unfoldImports chain ((key, spec) :: rest) =
      (l.unfoldImports chain rest).map ((key, source, spec.build) :: ·) := by
  rw [unfoldImports, hhead]
  cases l.unfoldImports chain rest with
  | error e => rfl
  | ok imports => rfl

end Outcomes

/-- What holds of every unfolding, by the ways in which it can end.  `P` speaks about a
    reference and `Q` about the imports of a document. -/
theorem unfolding_induction {l : Loader}
    {P : List DocPath → String → Except LoadError Source → Prop}
    {Q : List DocPath → Entries ImportSpec →
      Except LoadError (List (String × Source × Bool)) → Prop}
    (unlocated : ∀ chain file e, l.locate chain file = .error e → P chain file (.error e))
    (unfetched : ∀ chain file path e, l.locate chain file = .ok path →
      l.fetch chain path = .error e → P chain file (.error e))
    (unlinked : ∀ chain file path document e, l.locate chain file = .ok path →
      l.fetch chain path = .ok document →
      Q (chain ++ [path]) document.importSpecs (.error e) → P chain file (.error e))
    (linked : ∀ chain file path document imports, l.locate chain file = .ok path →
      l.fetch chain path = .ok document →
      Q (chain ++ [path]) document.importSpecs (.ok imports) →
      P chain file (.ok (l.sourceOf file path document imports)))
    (nil : ∀ chain, Q chain [] (.ok []))
    (headFailed : ∀ chain key spec rest e, P chain spec.source (.error e) →
      Q chain ((key, spec) :: rest) (.error e))
    (tailFailed : ∀ chain key spec rest source e, P chain spec.source (.ok source) →
      Q chain rest (.error e) → Q chain ((key, spec) :: rest) (.error e))
    (cons : ∀ chain key spec rest source imports, P chain spec.source (.ok source) →
      Q chain rest (.ok imports) →
      Q chain ((key, spec) :: rest) (.ok ((key, source, spec.build) :: imports))) :
    (∀ chain file, P chain file (l.unfoldIn chain file)) ∧
      (∀ chain specs, Q chain specs (l.unfoldImports chain specs)) := by
  apply unfoldIn.mutual_induct
  case case1 =>
    intro chain file e hlocate
    rw [unfoldIn_of_unlocated hlocate]
    exact unlocated chain file e hlocate
  case case2 =>
    intro chain file path hlocate e hfetch
    rw [unfoldIn_of_unfetched hlocate hfetch]
    exact unfetched chain file path e hlocate hfetch
  case case3 =>
    intro chain file path hlocate document hfetch e himports ih
    rw [himports] at ih
    rw [unfoldIn_of_fetched hlocate hfetch, himports]
    exact unlinked chain file path document e hlocate hfetch ih
  case case4 =>
    intro chain file path hlocate document hfetch imports himports ih
    rw [himports] at ih
    rw [unfoldIn_of_fetched hlocate hfetch, himports]
    exact linked chain file path document imports hlocate hfetch ih
  case case5 =>
    intro chain
    rw [unfoldImports_nil]
    exact nil chain
  case case6 =>
    intro chain key spec rest e hhead ih
    rw [hhead] at ih
    rw [unfoldImports_of_headFailed hhead]
    exact headFailed chain key spec rest e ih
  case case7 =>
    intro chain key spec rest source hhead e htail ih₁ ih₂
    rw [hhead] at ih₁
    rw [htail] at ih₂
    rw [unfoldImports_of_head hhead, htail]
    exact tailFailed chain key spec rest source e ih₁ ih₂
  case case8 =>
    intro chain key spec rest source hhead imports htail ih₁ ih₂
    rw [hhead] at ih₁
    rw [htail] at ih₂
    rw [unfoldImports_of_head hhead, htail]
    exact cons chain key spec rest source imports ih₁ ih₂

end DesignTokens.Loader
