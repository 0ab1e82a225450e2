/-
  DesignTokens.Proofs.Source.Cycles — cycles are detected exactly, and loading ends.

  Where every document that can be reached from a reference is there and sound, a load can only
  fail over a cycle.  It does so exactly when there is one: the chain that it reports walks along
  imports from the first document back to one that it has passed, and an unfolding that succeeds
  has gone below every import, so that no import can lead back.

  Neither the chain of documents above an import nor the cache is looked at here.  What is shown
  of unfoldings holds of loads, since a new loader answers as its reference unfolds.

  Main facts:
    * `circular_of_unfoldIn_error` — a failure names a chain of imports that closes.
    * `acc_of_unfoldIn_ok` — below a document that unfolds, every walk along imports ends.
    * `cycle_detection_exact` — loading ends, and fails exactly over cycles.
-/
import DesignTokens.Proofs.Source.History
import DesignTokens.Proofs.Source.Rules
import Mathlib.Data.List.Chain
import Mathlib.Logic.Relation

namespace DesignTokens.Loader

/-! ## §1. Cycles -/

/-- Every document that can be reached from a path is there and sound, and all its imports lead
    to paths inside the root. -/
def SoundFrom (l : Loader) (entry : DocPath) : Prop :=
  ∀ path, Relation.ReflTransGen l.Imports entry path →
    ∃ document, l.document? path = some document ∧
      ∀ spec ∈ document.importSpecs, ∃ imported, l.target? spec.2.source = some imported

/-- A document can be reached from a path that imports itself, directly or through others. -/
def CycleFrom (l : Loader) (entry : DocPath) : Prop :=
  ∃ path, Relation.ReflTransGen l.Imports entry path ∧ Relation.TransGen l.Imports path path

/-- A walk along imports from a path that goes on until it meets a document for the second
    time. -/
structure ClosedWalk (l : Loader) (entry : DocPath) (walk : List DocPath) : Prop where
  starts : walk.head? = some entry
  edges : walk.IsChain l.Imports
  distinct : walk.dropLast.Nodup
  closes : ∃ path ∈ walk.dropLast, walk.getLast? = some path

/-- A walk along imports from a path to another one, that has met no document twice before. -/
structure Walk (l : Loader) (entry : DocPath) (chain : List DocPath) (path : DocPath) : Prop where
  starts : (chain ++ [path]).head? = some entry
  edges : (chain ++ [path]).IsChain l.Imports
  distinct : chain.Nodup

variable {l : Loader} {entry path imported : DocPath} {chain walk : List DocPath}

theorem walk_nil (l : Loader) (entry : DocPath) : Walk l entry [] entry where
  starts := rfl
  edges := .singleton entry
  distinct := List.nodup_nil

/-- The end of a walk can be reached from its start. -/
theorem reaches_of_isChain (hstarts : (chain ++ [path]).head? = some entry)
    (hedges : (chain ++ [path]).IsChain l.Imports) :
    Relation.ReflTransGen l.Imports entry path := by
  have hne : chain ++ [path] ≠ [] := by simp
  have hhead : (chain ++ [path]).head hne = entry := by
    rw [← Option.some_inj, ← List.head?_eq_some_head hne]
    exact hstarts
  have hreach := List.relationReflTransGen_of_exists_isChain _ hedges hne
  rwa [hhead, List.getLast_append_singleton] at hreach

namespace Walk

theorem reaches (h : Walk l entry chain path) : Relation.ReflTransGen l.Imports entry path :=
  reaches_of_isChain h.starts h.edges

/-- A walk goes on along an import of a document that it has not met before. -/
theorem step (h : Walk l entry chain path) (hnew : path ∉ chain) (hedge : l.Imports path imported) :
    Walk l entry (chain ++ [path]) imported where
  starts := by
    rw [List.head?_append, h.starts]
    rfl
  edges := by
    refine h.edges.append (.singleton imported) ?_
    intro last hlast next hnext
    obtain rfl : path = last := by simpa using hlast
    obtain rfl : imported = next := by simpa using hnext
    exact hedge
  distinct := by
    rw [List.nodup_append]
    refine ⟨h.distinct, by simp, ?_⟩
    intro a ha b hb hab
    rw [List.mem_singleton.1 hb] at hab
    exact hnew (hab ▸ ha)

theorem closed (h : Walk l entry chain path) (hmem : path ∈ chain) :
    ClosedWalk l entry (chain ++ [path]) where
  starts := h.starts
  edges := h.edges
  distinct := by
    rw [List.dropLast_concat]
    exact h.distinct
  closes := by
    rw [List.dropLast_concat]
    exact ⟨path, hmem, List.getLast?_concat⟩

end Walk

/-- A walk that closes shows a cycle. -/
theorem ClosedWalk.cycleFrom (h : ClosedWalk l entry walk) : l.CycleFrom entry := by
  obtain ⟨path, hmem, hlast⟩ := h.closes
  -- the walk up to the first time that it meets the document, and from there to the second
  obtain ⟨front, back, hfront⟩ := List.append_of_mem hmem
  have hwalk : walk = front ++ path :: (back ++ [path]) := by
    rw [← List.dropLast_append_getLast? path hlast, hfront, List.append_assoc, List.cons_append]
  have hedges := h.edges
  rw [hwalk, List.isChain_split] at hedges
  obtain ⟨hto, hround⟩ := hedges
  refine ⟨path, ?_, ?_⟩
  · refine reaches_of_isChain ?_ hto
    rw [← h.starts, hwalk]
    cases front <;> rfl
  · cases back with
    | nil => exact .single (List.isChain_pair.1 hround)
    | cons next back =>
      rw [List.cons_append, List.isChain_cons_cons] at hround
      have hback : Relation.ReflTransGen l.Imports next path :=
        List.relationReflTransGen_of_exists_isChain_cons _ hround.2 (by simp)
      exact Relation.TransGen.head' hround.1 hback

/-! ## §2. Failures -/

/-- **Over sound documents a failure names a walk that closes.** -/
theorem circular_of_unfoldIn_error (hsound : l.SoundFrom entry) :
    (∀ chain file path, l.target? file = some path → Walk l entry chain path →
      ∀ e, l.unfoldIn chain file = .error e →
        ∃ walk, e = .circularImport walk ∧ ClosedWalk l entry walk) ∧
    (∀ chain specs, (∀ spec ∈ specs, ∃ imported, l.target? spec.2.source = some imported ∧
        Walk l entry chain imported) →
      ∀ e, l.unfoldImports chain specs = .error e →
        ∃ walk, e = .circularImport walk ∧ ClosedWalk l entry walk) := by
  refine unfolding_induction
    (P := fun chain file r => ∀ path, l.target? file = some path → Walk l entry chain path →
      ∀ e, r = .error e → ∃ walk, e = .circularImport walk ∧ ClosedWalk l entry walk)
    (Q := fun chain specs r => (∀ spec ∈ specs, ∃ imported,
        l.target? spec.2.source = some imported ∧ Walk l entry chain imported) →
      ∀ e, r = .error e → ∃ walk, e = .circularImport walk ∧ ClosedWalk l entry walk)
    ?unlocated ?unfetched ?unlinked ?linked ?nil ?headFailed ?tailFailed ?cons
  case unlocated =>
    -- the reference leads inside the root, so it was refused for the chain
    intro chain file e hlocate path htarget hwalk e' he
    obtain rfl : e = e' := Except.error.inj he
    rw [locate_of_target htarget] at hlocate
    by_cases hmem : path ∈ chain
    · rw [if_pos hmem] at hlocate
      exact ⟨chain ++ [path], (Except.error.inj hlocate).symm, hwalk.closed hmem⟩
    · rw [if_neg hmem] at hlocate
      cases hlocate
  case unfetched =>
    intro chain file path e hlocate hfetch path' htarget hwalk
    obtain ⟨htarget', -⟩ := locate_eq_ok_iff.1 hlocate
    obtain rfl : path = path' := Option.some.inj (htarget'.symm.trans htarget)
    -- the walk has reached the document, so it is there
    obtain ⟨document, hdocument, -⟩ := hsound path hwalk.reaches
    rw [fetch_eq_ok_iff.2 hdocument] at hfetch
    cases hfetch
  case unlinked =>
    intro chain file path document e hlocate hfetch ih path' htarget hwalk e' he
    obtain ⟨htarget', hnew⟩ := locate_eq_ok_iff.1 hlocate
    obtain rfl : path = path' := Option.some.inj (htarget'.symm.trans htarget)
    have hdocument : l.document? path = some document := fetch_eq_ok_iff.1 hfetch
    -- every import of the document is there, and the walk goes on to it
    refine ih ?_ e' (congrArg Except.error (Except.error.inj he))
    intro spec hspec
    obtain ⟨document', hdocument', himports⟩ := hsound path hwalk.reaches
    obtain rfl : document = document' := Option.some.inj (hdocument.symm.trans hdocument')
    obtain ⟨imported, himported⟩ := himports spec hspec
    have hedge : l.Imports path imported := (imports_iff hdocument).2 ⟨spec, hspec, himported⟩
    exact ⟨imported, himported, hwalk.step hnew hedge⟩
  case headFailed =>
    intro chain key spec rest e ih hspecs e' he
    obtain ⟨imported, himported, hwalk⟩ := hspecs _ List.mem_cons_self
    exact ih imported himported hwalk e' (congrArg Except.error (Except.error.inj he))
  case tailFailed =>
    intro chain key spec rest source e _ ih hspecs e' he
    exact ih (fun spec hspec => hspecs spec (List.mem_cons_of_mem _ hspec)) e' he
  -- the other cases are no failures
  case linked => intro chain file path document imports _ _ _ path' _ _ e he; cases he
  case nil => intro chain _ e he; cases he
  case cons => intro chain key spec rest source imports _ _ _ e he; cases he

/-! ## §3. Successes -/

/-- **Below a document that unfolds, every walk along imports ends.** -/
theorem acc_of_unfoldIn_ok (l : Loader) :
    (∀ chain file source, l.unfoldIn chain file = .ok source →
      ∀ path, l.target? file = some path → Acc (fun q p => l.Imports p q) path) ∧
    (∀ chain specs imports, l.unfoldImports chain specs = .ok imports →
      ∀ spec ∈ specs, ∀ imported, l.target? spec.2.source = some imported →
        Acc (fun q p => l.Imports p q) imported) := by
  refine unfolding_induction
    (P := fun chain file r => ∀ source, r = .ok source →
      ∀ path, l.target? file = some path → Acc (fun q p => l.Imports p q) path)
    (Q := fun chain specs r => ∀ imports, r = .ok imports →
      ∀ spec ∈ specs, ∀ imported, l.target? spec.2.source = some imported →
        Acc (fun q p => l.Imports p q) imported)
    ?unlocated ?unfetched ?unlinked ?linked ?nil ?headFailed ?tailFailed ?cons
  case linked =>
    intro chain file path document imports hlocate hfetch ih source _ path' htarget
    obtain ⟨htarget', -⟩ := locate_eq_ok_iff.1 hlocate
    obtain rfl : path = path' := Option.some.inj (htarget'.symm.trans htarget)
    have hdocument : l.document? path = some document := fetch_eq_ok_iff.1 hfetch
    -- a walk that goes on from here goes on below one of the imports
    refine Acc.intro path ?_
    intro imported hedge
    obtain ⟨spec, hspec, himported⟩ := (imports_iff hdocument).1 hedge
    exact ih imports rfl spec hspec imported himported
  case nil =>
    intro chain imports _ spec hspec
    cases hspec
  case cons =>
    intro chain key spec rest source imports ih₁ ih₂ all _ other hother imported himported
    rcases List.mem_cons.1 hother with rfl | hother
    · exact ih₁ source rfl imported himported
    · exact ih₂ imports rfl other hother imported himported
  -- the other cases are no successes
  case unlocated => intro chain file e _ source hsource; cases hsource
  case unfetched => intro chain file path e _ _ source hsource; cases hsource
  case unlinked => intro chain file path document e _ _ _ source hsource; cases hsource
  case headFailed => intro chain key spec rest e _ imports himports; cases himports
  case tailFailed => intro chain key spec rest source e _ _ imports himports; cases himports

/-- Where every walk along imports ends, no document that can be reached imports itself. -/
theorem not_cycleFrom_of_acc (h : Acc (fun q p => l.Imports p q) entry) : ¬ l.CycleFrom entry := by
  have hround : ∀ path, Acc (fun q p => l.Imports p q) path →
      ¬ Relation.TransGen l.Imports path path := by
    intro path hpath
    induction hpath with
    | intro path _ ih =>
      intro hcycle
      -- the cycle goes through an import of the document, and so through the import itself
      obtain ⟨next, hnext, hback⟩ := Relation.TransGen.head'_iff.1 hcycle
      exact ih next hnext (Relation.TransGen.tail' hback hnext)
  rintro ⟨path, hreach, hcycle⟩
  refine hround path ?_ hcycle
  clear hcycle
  induction hreach with
  | refl => exact h
  | tail _ hedge ih => exact ih.inv hedge

/-! ## §4. Loads -/

/-- **Cycles are detected exactly, and loading ends.**  The rules of loading come to an end for
    every reference in every state, and it is the loader's answer.  Where all documents that can
    be reached from a reference are there and sound, a new loader loads it exactly when none of
    them imports itself, directly or through others; and when one does, it reports a walk along
    imports that starts at the document referred to, meets no document twice until its end, and
    ends at one that it has met. -/
theorem cycle_detection_exact (l : Loader) (file : String) :
    (∀ state, Loads l.surroundings l.root [] file state (l.load file state) ∧
      ∀ r, Loads l.surroundings l.root [] file state r → r = l.load file state) ∧
    ∀ entry, l.target? file = some entry → l.SoundFrom entry →
      ((∃ source, (l.load file .empty).1 = .ok source) ↔ ¬ l.CycleFrom entry) ∧
      (l.CycleFrom entry → ∃ walk,
        (l.load file .empty).1 = .error (.circularImport walk) ∧ ClosedWalk l entry walk) := by
  refine ⟨fun state => ⟨l.loads_loadIn.1 [] file state, fun r => eq_loadIn_of_loads⟩, ?_⟩
  intro entry htarget hsound
  have hsame := load_eq_unfold l.cacheTrue_empty file
  have hsuccess : ∀ source, (l.load file .empty).1 = .ok source → ¬ l.CycleFrom entry := by
    intro source hsource
    obtain ⟨unfolded, hunfolded⟩ := (exists_eq_ok_iff_of_map_eq hsame).1 ⟨source, hsource⟩
    exact not_cycleFrom_of_acc (l.acc_of_unfoldIn_ok.1 [] file unfolded hunfolded entry htarget)
  have hfailure : ∀ e, (l.load file .empty).1 = .error e →
      ∃ walk, e = .circularImport walk ∧ ClosedWalk l entry walk := by
    intro e he
    have hunfold : l.unfold file = .error e := (eq_error_iff_of_map_eq hsame e).1 he
    exact (circular_of_unfoldIn_error hsound).1 [] file entry htarget (walk_nil l entry) e hunfold
  cases hresult : (l.load file .empty).1 with
  | ok source =>
    have hnone : ¬ l.CycleFrom entry := hsuccess source hresult
    exact ⟨⟨fun _ => hnone, fun _ => ⟨source, rfl⟩⟩, fun hcycle => absurd hcycle hnone⟩
  | error e =>
    obtain ⟨walk, rfl, hwalk⟩ := hfailure e hresult
    have hcycle : l.CycleFrom entry := hwalk.cycleFrom
    refine ⟨⟨?_, fun hnone => absurd hcycle hnone⟩, fun _ => ⟨walk, rfl, hwalk⟩⟩
    rintro ⟨source, hsource⟩
    cases hsource

/-! ### Two documents that import each other -/

/-- Where a document of the ring lies. -/
def ringPath (name : String) : DocPath := ⟨true, [.name name]⟩

/-- Two documents, of which each imports the other one. -/
def ring : Loader where
  io :=
    { resolve := fun file _ => .ok (ringPath file)
      files := [(ringPath "left", .empty), (ringPath "right", .empty)]
      parse := fun _ path =>
        .ok (.obj [("$build", .obj [("imports", .obj
          [("other", .str (if path = ringPath "left" then "right" else "left"))])])]) }
  root := ⟨true, []⟩

/-- A document of the ring, which has nothing but its import. -/
def ringDocument (other : String) : Document where
  data := .obj []
  directives := some { imports := [("other", .file other)], patches := [], exports := none }

theorem document?_left : ring.document? (ringPath "left") = some (ringDocument "right") := rfl

theorem document?_right : ring.document? (ringPath "right") = some (ringDocument "left") := rfl

/-- A document of the ring imports the other one and nothing else. -/
theorem imports_ring_iff {other : String}
    (hdocument : ring.document? path = some (ringDocument other)) :
    ring.Imports path imported ↔ imported = ringPath other := by
  rw [imports_iff hdocument]
  constructor
  · rintro ⟨spec, hspec, himported⟩
    obtain rfl := List.mem_singleton.1 hspec
    exact (Option.some.inj himported).symm
  · rintro rfl
    exact ⟨_, List.mem_singleton_self _, rfl⟩

theorem soundFrom_ring : ring.SoundFrom (ringPath "left") := by
  intro path hreach
  -- no walk leaves the two documents
  have hpath : path = ringPath "left" ∨ path = ringPath "right" := by
    induction hreach with
    | refl => exact Or.inl rfl
    | tail _ hedge ih =>
      rcases ih with rfl | rfl
      · exact Or.inr ((imports_ring_iff document?_left).1 hedge)
      · exact Or.inl ((imports_ring_iff document?_right).1 hedge)
  have hdocument : ∃ other, ring.document? path = some (ringDocument other) := by
    rcases hpath with rfl | rfl
    · exact ⟨_, document?_left⟩
    · exact ⟨_, document?_right⟩
  obtain ⟨other, hdocument⟩ := hdocument
  refine ⟨ringDocument other, hdocument, ?_⟩
  intro spec hspec
  obtain rfl := List.mem_singleton.1 hspec
  exact ⟨ringPath other, rfl⟩

/-- The ring is sound but for its cycle, so loading it ends with a walk around it. -/
theorem cycle_detection_exact_ring :
    ring.target? "left" = some (ringPath "left") ∧ ring.SoundFrom (ringPath "left") ∧
      ring.CycleFrom (ringPath "left") ∧
      ∃ walk, (ring.load "left" .empty).1 = .error (.circularImport walk) ∧
        ClosedWalk ring (ringPath "left") walk := by
  have htarget : ring.target? "left" = some (ringPath "left") := rfl
  have hto : ring.Imports (ringPath "left") (ringPath "right") :=
    (imports_ring_iff document?_left).2 rfl
  have hback : ring.Imports (ringPath "right") (ringPath "left") :=
    (imports_ring_iff document?_right).2 rfl
  have hcycle : ring.CycleFrom (ringPath "left") :=
    ⟨ringPath "left", .refl, .tail (.single hto) hback⟩
  exact ⟨htarget, soundFrom_ring, hcycle,
    ((cycle_detection_exact ring "left").2 _ htarget soundFrom_ring).2 hcycle⟩

end DesignTokens.Loader
