/-
  DesignTokens.Proofs.Token.Index — a table of tokens as an index of its tree.

  A table is filled along the tree, with the place of the subtree in hand.  What that comes to is
  said without the tree: the tokens for its leaves are pushed one after the other.  The two parts
  of a table, its tokens and the positions under their places, then grow together.  The positions
  are right as long as no place is pushed twice, and the leaves of a tree have distinct places
  (`nodup_places`).

  Main facts:
    * `collect_eq` — filling a table along a tree is pushing the tokens for its leaves.
    * `indexed_pushAll` — tokens with distinct places are indexed by their positions.
    * `get?_eq_some_iff` — what is found under a place.
    * `table_indexes_leaves` — the table of a tree, and what is found in it.
-/
import DesignTokens.Proofs.Tree.Places
import DesignTokens.Token.Table

namespace DesignTokens

namespace TokenTable

/-! ## §1. Filling a table -/

/-- The table with more tokens, one after the other. -/
def pushAll (table : TokenTable) (tokens : List Token) : TokenTable := tokens.foldl push table

/-- The tokens for leaves of a tree that lies at a place: one for each leaf that is not null. -/
def published (stem : String) (place : List String) (leaves : List Tree.Leaf) : List Token :=
  (leaves.filter fun leaf => leaf.value ≠ .null).map fun leaf =>
    Token.ofPlace stem (place ++ leaf.place) leaf.value

section Filling

variable {stem : String} {place : List String}

theorem pushAll_append (table : TokenTable) (front back : List Token) :
    table.pushAll (front ++ back) = (table.pushAll front).pushAll back :=
  List.foldl_append

theorem published_append (front back : List Tree.Leaf) :
    published stem place (front ++ back)
      = published stem place front ++ published stem place back := by
  unfold published
  rw [List.filter_append, List.map_append]

/-- The leaves of a child are published at its own place. -/
theorem published_under (key : String) (leaves : List Tree.Leaf) :
    published stem place (leaves.map (Tree.Leaf.under key))
      = published stem (place ++ [key]) leaves := by
  unfold published
  rw [List.filter_map, List.map_map]
  refine List.map_congr_left fun leaf _ => ?_
  show Token.ofPlace stem (place ++ key :: leaf.place) leaf.value = _
  rw [List.append_cons]

mutual

/-- **Filling a table along a tree** is pushing the tokens for its leaves. -/
theorem collect_eq (stem : String) : (t : Tree) → (place : List String) → (table : TokenTable) →
    collect stem place table t = table.pushAll (published stem place t.leaves)
  | .null, place, table => by rw [collect]; rfl
  | .bool b, place, table => by
    rw [collect, Tree.leaves_of_scalar rfl]
    simp [published, pushAll]
  | .num n, place, table => by
    rw [collect, Tree.leaves_of_scalar rfl]
    simp [published, pushAll]
  | .str s, place, table => by
    rw [collect, Tree.leaves_of_scalar rfl]
    simp [published, pushAll]
  | .arr items, place, table => by rw [collect, Tree.leaves, collectItems_eq stem items]
  | .obj fields, place, table => by rw [collect, Tree.leaves, collectFields_eq stem fields]

theorem collectItems_eq (stem : String) : (items : List Tree) → (place : List String) →
    (index : Nat) → (table : TokenTable) →
    collectItems stem place index table items
      = table.pushAll (published stem place (Tree.leavesOfItems index items))
  | [], place, index, table => by rw [collectItems, Tree.leavesOfItems]; rfl
  | item :: rest, place, index, table => by
    rw [collectItems, Tree.leavesOfItems, published_append, published_under, pushAll_append,
      collect_eq stem item, collectItems_eq stem rest]

theorem collectFields_eq (stem : String) : (fields : List (String × Tree)) →
    (place : List String) → (table : TokenTable) →
    collectFields stem place table fields
      = table.pushAll (published stem place (Tree.leavesOfFields fields))
  | [], place, table => by rw [collectFields, Tree.leavesOfFields]; rfl
  | (key, value) :: rest, place, table => by
    rw [collectFields, Tree.leavesOfFields, published_append, published_under, pushAll_append,
      collect_eq stem value, collectFields_eq stem rest]

end

end Filling

/-! ## §2. Tokens and positions -/

/-- The places of the tokens, in order. -/
def places (table : TokenTable) : List (List String) := table.tokens.map Token.place

/-- The places of a table are distinct, and the index has the position of each of them. -/
structure Indexed (table : TokenTable) : Prop where
  nodup : table.places.Nodup
  index_eq : table.index = table.places.zipIdx

theorem indexed_empty : Indexed empty := ⟨List.nodup_nil, rfl⟩

theorem places_push (table : TokenTable) (token : Token) :
    (table.push token).places = table.places ++ [token.place] := by
  unfold places push
  rw [List.map_append]
  rfl

/-- A token with a new place is indexed by the end of the list that it comes to. -/
theorem indexed_push {table : TokenTable} (h : table.Indexed) {token : Token}
    (hnew : token.place ∉ table.places) : (table.push token).Indexed := by
  have hkeys : Entries.keys table.index = table.places := by
    rw [h.index_eq]
    exact List.zipIdx_map_fst 0 table.places
  have hindex : (table.push token).index = table.index ++ [(token.place, table.tokens.length)] :=
    Entries.put_of_not_mem (by rwa [hkeys]) _
  constructor
  · rw [places_push]
    exact List.nodup_append.2 ⟨h.nodup, List.nodup_singleton _, by
      intro old hold other hother heq
      rw [heq, List.mem_singleton.1 hother] at hold
      exact hnew hold⟩
  · rw [hindex, h.index_eq, places_push, List.zipIdx_append]
    simp [places]

/-- **Tokens with distinct places are indexed**, however many are pushed. -/
theorem indexed_pushAll {tokens : List Token} {table : TokenTable} (h : table.Indexed)
    (hnodup : (table.places ++ tokens.map Token.place).Nodup) :
    (table.pushAll tokens).Indexed ∧ (table.pushAll tokens).tokens = table.tokens ++ tokens := by
  induction tokens generalizing table with
  | nil => exact ⟨h, (List.append_nil _).symm⟩
  | cons token rest ih =>
    -- the next token is pushed first, so its place moves over to those of the table
    have hmoved : ((table.push token).places ++ rest.map Token.place).Nodup := by
      rw [places_push, List.append_assoc]
      exact hnodup
    have hnew : token.place ∉ table.places := by
      intro hmem
      exact (List.nodup_append.1 hnodup).2.2 token.place hmem token.place (by simp) rfl
    obtain ⟨hindexed, htokens⟩ := ih (indexed_push h hnew) hmoved
    refine ⟨hindexed, ?_⟩
    show ((table.push token).pushAll rest).tokens = _
    rw [htokens]
    simp [push]

section Found

variable {table : TokenTable} (h : table.Indexed) {place : List String}

include h

/-- The position that is kept for a place is the one at which it stands. -/
theorem get?_index_eq_some_iff {position : Nat} :
    Entries.get? place table.index = some position ↔ table.places[position]? = some place := by
  have hkeys : (Entries.keys table.index).Nodup := by
    rw [h.index_eq]
    show (table.places.zipIdx.map Prod.fst).Nodup
    rw [List.zipIdx_map_fst]
    exact h.nodup
  rw [← List.mk_mem_zipIdx_iff_getElem?, ← h.index_eq]
  exact ⟨Entries.mem_of_get?, Entries.get?_of_mem hkeys⟩

/-- **A token is found under its place, and nothing else is.** -/
theorem get?_eq_some_iff {token : Token} :
    table.get? place = some token ↔ token ∈ table.tokens ∧ token.place = place := by
  unfold get?
  rw [Option.bind_eq_some_iff]
  constructor
  · rintro ⟨position, hposition, htoken⟩
    have hplace := (get?_index_eq_some_iff h).1 hposition
    unfold places at hplace
    rw [List.getElem?_map, htoken] at hplace
    exact ⟨List.mem_of_getElem? htoken, Option.some.inj hplace⟩
  · rintro ⟨hmem, rfl⟩
    obtain ⟨position, htoken⟩ := List.mem_iff_getElem?.1 hmem
    refine ⟨position, (get?_index_eq_some_iff h).2 ?_, htoken⟩
    unfold places
    rw [List.getElem?_map, htoken]
    rfl

end Found

/-! ## §3. The table of a tree -/

section Trees

variable (stem : String) {exports : Tree} (hdistinct : exports.Distinct)

include hdistinct

/-- The places of the leaves that are published are distinct. -/
theorem nodup_places_published (place : List String) :
    ((published stem place exports.leaves).map Token.place).Nodup := by
  have hleaves : ((exports.leaves.filter fun leaf => leaf.value ≠ .null).map
      Tree.Leaf.place).Nodup :=
    (Tree.nodup_places exports hdistinct).sublist (List.filter_sublist.map Tree.Leaf.place)
  have hfront : ((exports.leaves.filter fun leaf => leaf.value ≠ .null).map fun leaf =>
      place ++ leaf.place).Nodup := by
    have hmap := hleaves.map
      fun front back (heq : place ++ front = place ++ back) => List.append_cancel_left heq
    rwa [List.map_map] at hmap
  unfold published
  rw [List.map_map]
  exact hfront

/-- The table of a tree holds the tokens for its leaves, each with its position. -/
theorem indexed_ofTree : (ofTree stem exports).Indexed ∧
    (ofTree stem exports).tokens = published stem [] exports.leaves := by
  unfold ofTree
  rw [collect_eq]
  exact indexed_pushAll indexed_empty (nodup_places_published stem hdistinct [])

/-- **The table of a tree is an exact index of its leaves.**  It has one token for each leaf but
    null, in document order, at the place of the leaf and with its value.  The places are
    distinct, and the index has the position of each.  Under the place of a token the token is
    found, and under any other place nothing is. -/
theorem table_indexes_leaves :
    (ofTree stem exports).tokens
        = (exports.leaves.filter fun leaf => leaf.value ≠ .null).map (fun leaf =>
            ⟨leaf.place, Token.propertyName stem leaf.place, leaf.value⟩) ∧
      ((ofTree stem exports).tokens.map Token.place).Nodup ∧
      (ofTree stem exports).index = ((ofTree stem exports).tokens.map Token.place).zipIdx ∧
      (∀ token ∈ (ofTree stem exports).tokens,
        (ofTree stem exports).get? token.place = some token) ∧
      ∀ place, (∀ leaf ∈ exports.leaves, leaf.value ≠ .null → leaf.place ≠ place) →
        (ofTree stem exports).get? place = none := by
  obtain ⟨hindexed, htokens⟩ := indexed_ofTree stem hdistinct
  refine ⟨htokens, hindexed.nodup, hindexed.index_eq, ?_, ?_⟩
  · intro token hmem
    exact (get?_eq_some_iff hindexed).2 ⟨hmem, rfl⟩
  · intro place hfree
    by_contra hfound
    obtain ⟨token, htoken⟩ := Option.ne_none_iff_exists'.1 hfound
    obtain ⟨hmem, hplace⟩ := (get?_eq_some_iff hindexed).1 htoken
    rw [htokens] at hmem
    obtain ⟨leaf, hleaf, heq⟩ := List.mem_map.1 hmem
    obtain ⟨hleaf, hvalue⟩ := List.mem_filter.1 hleaf
    refine hfree leaf hleaf (by simpa using hvalue) ?_
    rw [← hplace, ← heq]
    rfl

end Trees

/-- A sheet with numerals and empty keys on its paths, and things that are no tokens. -/
def paletteSheet : Tree :=
  .obj [("color", .obj [("red", .obj [("500", .str "#f00")]), ("", .bool true)]),
    ("space", .arr [.ofInt 4, .null, .arr [], .arr [.ofInt 8]]), ("unset", .null)]

/-- Its tokens stand in document order, and a path to a container or to null finds nothing. -/
theorem table_indexes_leaves_paletteSheet :
    paletteSheet.Distinct ∧
      (ofTree "t" paletteSheet).tokens.map Token.place
        = [["color", "red", "500"], ["color", ""], ["space", "0"], ["space", "3", "0"]] ∧
      (ofTree "t" paletteSheet).get? ["space", "3", "0"]
        = some ⟨["space", "3", "0"], "--t-space-3-0", .ofInt 8⟩ ∧
      (∀ place ∈ [["unset"], ["space", "1"], ["space", "3"], []],
        (ofTree "t" paletteSheet).get? place = none) := by
  have hdistinct : paletteSheet.Distinct := by decide +kernel
  obtain ⟨htokens, -, -, hfound, hfree⟩ := table_indexes_leaves "t" hdistinct
  have hlast : (⟨["space", "3", "0"], "--t-space-3-0", .ofInt 8⟩ : Token)
      ∈ (ofTree "t" paletteSheet).tokens := by decide +kernel
  refine ⟨hdistinct, ?_, hfound _ hlast, ?_⟩
  · rw [htokens]
    decide +kernel
  · intro place hplace
    apply hfree
    revert place
    decide +kernel

end TokenTable

end DesignTokens
