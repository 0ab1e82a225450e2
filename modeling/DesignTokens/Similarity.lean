/-
  DesignTokens.Similarity — how alike two names are, and which names to suggest for another.

  A name is seen as the counts of its grams, the runs of one, two and three code points.  The
  score of two names is the cosine of their count vectors.  The integers under it are exact;
  only the last quotient is rounded.

  Main facts:
    * `dot_self` — a name's dot product with itself is the sum of the squares of its counts.
    * `mem_ranked` — exactly the candidates above the threshold are ranked.
-/

namespace DesignTokens.Similarity

/-! ## §1. Grams -/

/-- The runs of `width` neighbouring elements. -/
def windows {α : Type} (width : Nat) : List α → List (List α)
  | [] => []
  | a :: s =>
    let run := (a :: s).take width
    if run.length = width then run :: windows width s else []

/-- The runs of one, two and three code points, each as often as it occurs. -/
def grams (s : List Char) : List (List Char) := windows 1 s ++ windows 2 s ++ windows 3 s

/-- The dot product of the count vectors: every gram of one name counts as often as the other
    name has it. -/
def dot (a b : List Char) : Nat :=
  let other := grams b
  (grams a).foldr (fun g total => other.count g + total) 0

/-- The sum of the squares of the counts. -/
def normSquared (a : List Char) : Nat := dot a a

theorem dot_self (a : List Char) : dot a a = normSquared a := rfl

/-! ## §2. The score -/

/-- The score of two names, from `0` to `1`.  An empty name is like nothing but itself. -/
def score (a b : String) : Float :=
  if a.isEmpty || b.isEmpty then if a = b then 1 else 0
  else
    let x := a.toList
    let y := b.toList
    Float.ofNat (dot x y)
      / (Float.sqrt (Float.ofNat (normSquared x)) * Float.sqrt (Float.ofNat (normSquared y)))

/-- The place of a score in the order of scores: doubles that are not negative are ordered as
    their bits are. -/
def place (x : Float) : Nat := x.toBits.toNat

/-- Names with a score above this are suggested. -/
def threshold : Float := 0.8

/-- Whether a score is high enough for a suggestion. -/
def isClose (x : Float) : Bool := place threshold < place x

/-! ## §3. Suggestions -/

/-- Removes an element that is equal to the one behind it. -/
def dropRepeats {α : Type} [DecidableEq α] : List α → List α
  | a :: b :: rest => if a = b then dropRepeats (b :: rest) else a :: dropRepeats (b :: rest)
  | short => short

/-- The order of suggestions: by descending score, and by name among equal scores. -/
def goesBefore {α : Type} [LT α] [DecidableLT α] [DecidableEq α] (a b : α × String) : Bool :=
  b.1 < a.1 || (a.1 = b.1 && decide (a.2 ≤ b.2))

/-- The candidates other than the query whose rank lies above a bound, the best first. -/
def ranked {α : Type} [LT α] [DecidableLT α] [DecidableEq α] (rank : String → α) (bound : α)
    (query : String) (candidates : List String) : List String :=
  let scored := (candidates.filter (· ≠ query)).map fun name => (rank name, name)
  dropRepeats (((scored.filter (bound < ·.1)).mergeSort goesBefore).map Prod.snd)

/-- The names to suggest for one that is not known, the best first. -/
def suggestions (query : String) (candidates : List String) : List String :=
  ranked (fun name => place (score query name)) (place threshold) query candidates

theorem mem_dropRepeats {α : Type} [DecidableEq α] {a : α} {xs : List α} :
    a ∈ dropRepeats xs ↔ a ∈ xs := by
  fun_induction dropRepeats xs with
  | case1 b rest ih => simp_all
  | case2 b c rest h ih => simp [ih]
  | case3 short h => rfl

/-- Exactly the candidates above the bound are ranked. -/
theorem mem_ranked {α : Type} [LT α] [DecidableLT α] [DecidableEq α] {rank : String → α}
    {bound : α} {query name : String} {candidates : List String} :
    name ∈ ranked rank bound query candidates
      ↔ name ∈ candidates ∧ name ≠ query ∧ bound < rank name := by
  simp only [ranked, mem_dropRepeats, List.mem_map, (List.mergeSort_perm _ _).mem_iff,
    List.mem_filter, decide_eq_true_eq, Prod.exists, Prod.mk.injEq]
  constructor
  · rintro ⟨r, n, ⟨⟨m, hm, rfl, rfl⟩, hbound⟩, rfl⟩
    exact ⟨hm.1, hm.2, hbound⟩
  · rintro ⟨hmem, hne, hbound⟩
    exact ⟨rank name, name, ⟨⟨name, ⟨hmem, hne⟩, rfl, rfl⟩, hbound⟩, rfl⟩

end DesignTokens.Similarity
