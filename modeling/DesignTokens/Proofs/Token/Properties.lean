/-
  DesignTokens.Proofs.Token.Properties — the names of properties, and what becomes of equal ones.

  The name of a property is no code for the place of its token.  A dash stands for every joint
  between keys and for every character that a name cannot hold, and dashes of the keys stand
  beside them.  What a name keeps of a place is its words, and it keeps just these.  Keys that are
  empty leave their joint behind, but for those in front of everything else.

  So a style sheet may have two lines for one property.  Then the line that comes last counts, for
  the references of all tokens with the property.  What is declared by the text of the lines is a
  question of the values too, which stand in it as they are.  The text declares what its lines
  were written for where no string ends its own declaration.

  Main facts:
    * `propertyName_eq` — a name is its words with dashes between them.
    * `propertyName_eq_iff` — names are equal where the words are.
    * `declarations?_block` — the text of a sheet is read back, if its strings are contained.
    * `properties_tell_words_apart` — which tokens share a property, and what references yield.
    * `declared_twice` — two places with one property, and a value with a declaration of its own.
-/
import DesignTokens.Proofs.Token.Index
import DesignTokens.Proofs.Token.Sheet
import DesignTokens.Text.Pieces

namespace DesignTokens

namespace Token

/-! ## §1. Words -/

/-- Whether a character stands in a name as it is and is no dash: an ASCII letter, a digit or an
    underscore. -/
def isWordChar (c : Char) : Bool := c.isAlphanum || c == '_'

/-- The words of a key: its pieces between the other characters. -/
def keyWords (key : String) : List (List Char) := key.toList.splitOnP fun c => !isWordChar c

/-- The words of a stem and a place.  Empty keys count unless they come first. -/
def words (stem : String) (place : List String) : List (List Char) :=
  ((stem :: place).dropWhile fun key => key == "").flatMap keyWords

/-- A name holds the characters of words as they are, and for any other a dash. -/
theorem sanitize_eq (key : String) :
    sanitize key = key.toList.map fun c => if isWordChar c then c else '-' := by
  refine List.map_congr_left fun c _ => ?_
  unfold isWordChar
  by_cases hdash : c = '-'
  · subst hdash
    simp
  · have hne : (c == '-') = false := beq_eq_false_iff_ne.2 hdash
    rw [hne, Bool.or_false]

/-- So the words are what stands between its dashes. -/
theorem pieces_sanitize (key : String) : Text.pieces '-' (sanitize key) = keyWords key := by
  rw [sanitize_eq]
  unfold keyWords
  induction key.toList with
  | nil => rfl
  | cons c s ih =>
    rw [List.map_cons, Text.pieces, List.splitOnP_cons_eq_if_modifyHead, ih]
    -- a character of a word is no dash, and so it goes in front of the first piece on both sides
    by_cases hword : isWordChar c = true
    · have hdash : c ≠ '-' := by
        rintro rfl
        exact absurd hword (by decide)
      rw [if_pos hword, if_neg hdash, hword]
      cases hpieces : s.splitOnP fun c => !isWordChar c with
      | nil => exact absurd hpieces (List.splitOnP_ne_nil _ s)
      | cons piece rest => rfl
    · rw [if_neg hword, if_pos rfl]
      simp [hword]

theorem keyWords_ne_nil (key : String) : keyWords key ≠ [] := List.splitOnP_ne_nil _ _

theorem joined_keyWords (key : String) : Text.joined '-' (keyWords key) = sanitize key := by
  rw [← pieces_sanitize, Text.joined_pieces]

/-- A key of which a name holds nothing is empty. -/
theorem sanitize_eq_nil_iff {key : String} : sanitize key = [] ↔ key = "" := by
  rw [sanitize_eq, List.map_eq_nil_iff, String.toList_eq_nil_iff]

/-- A key of nothing but letters, digits and underscores is a word. -/
theorem keyWords_of_forall {key : String} (h : ∀ c ∈ key.toList, isWordChar c = true) :
    keyWords key = [key.toList] := by
  refine List.splitOnP_eq_singleton fun c hc => ?_
  rw [h c hc]
  rfl

theorem dash_not_mem_of_mem_words {stem : String} {place : List String} {word : List Char}
    (h : word ∈ words stem place) : '-' ∉ word := by
  obtain ⟨key, -, hword⟩ := List.mem_flatMap.1 h
  rw [← pieces_sanitize] at hword
  exact Text.not_mem_of_mem_pieces hword

/-- The words are never a single one that is empty, for the first key that counts is not. -/
theorem words_ne_singleton_nil (stem : String) (place : List String) :
    words stem place ≠ [[]] := by
  unfold words
  cases hkeys : (stem :: place).dropWhile fun key => key == "" with
  | nil => simp
  | cons key rest =>
    have hkey : key ≠ "" := by
      have hhead := List.head?_dropWhile_not (fun key => key == "") (stem :: place)
      rw [hkeys] at hhead
      simpa using hhead
    intro hwords
    rw [List.flatMap_cons, List.append_eq_singleton_iff] at hwords
    rcases hwords with ⟨hnil, -⟩ | ⟨hone, -⟩
    · exact keyWords_ne_nil key hnil
    · refine hkey (sanitize_eq_nil_iff.1 ?_)
      rw [← joined_keyWords, hone]
      rfl

/-! ## §2. Names -/

/-- Behind a name that has begun, a dash stands in front of every key. -/
theorem foldl_step (place : List String) {text : List Char} (h : text ≠ []) :
    place.foldl propertyName.step (['-', '-'] ++ text)
      = ['-', '-'] ++ Text.joined '-' (text :: place.map sanitize) := by
  induction place generalizing text with
  | nil => rfl
  | cons key rest ih =>
    have hbegun : 2 < (['-', '-'] ++ text).length := by
      have hlength := List.length_pos_of_ne_nil h
      simp only [List.length_append, List.length_cons, List.length_nil]
      omega
    rw [List.foldl_cons, propertyName.step, if_pos hbegun]
    have hone : (['-', '-'] ++ text ++ ['-'] ++ sanitize key)
        = ['-', '-'] ++ (text ++ '-' :: sanitize key) := by simp
    rw [hone, ih (List.append_ne_nil_of_left_ne_nil h _)]
    -- the text that has grown is a join of two in front of the others
    rw [List.map_cons, Text.joined_cons text (List.cons_ne_nil _ _)]
    by_cases hrest : rest.map sanitize = []
    · rw [hrest]
      rfl
    · rw [Text.joined_cons _ hrest, Text.joined_cons _ hrest]
      simp

/-- Before that, empty keys leave nothing behind. -/
theorem foldl_step_nil (place : List String) :
    place.foldl propertyName.step ['-', '-']
      = ['-', '-'] ++ Text.joined '-' ((place.dropWhile fun key => key == "").map sanitize) := by
  induction place with
  | nil => rfl
  | cons key rest ih =>
    have hstep : propertyName.step ['-', '-'] key = ['-', '-'] ++ sanitize key := rfl
    rw [List.foldl_cons, hstep, List.dropWhile_cons]
    by_cases hkey : key = ""
    · subst hkey
      exact ih
    · rw [foldl_step rest (fun hnil => hkey (sanitize_eq_nil_iff.1 hnil))]
      simp [hkey]

/-- **A name is its words, with dashes between them** and two in front. -/
theorem propertyName_eq (stem : String) (place : List String) :
    propertyName stem place = String.ofList (['-', '-'] ++ Text.joined '-' (words stem place)) := by
  have hkeys := foldl_step_nil (stem :: place)
  unfold propertyName words
  rw [← Text.joined_map keyWords_ne_nil joined_keyWords]
  exact congrArg String.ofList hkeys

/-- The words are read off a name again, unless it has none. -/
theorem pieces_joined_words (stem : String) (place : List String) :
    Text.pieces '-' (Text.joined '-' (words stem place))
      = if words stem place = [] then [[]] else words stem place := by
  by_cases hnil : words stem place = []
  · rw [if_pos hnil, hnil]
    rfl
  · rw [if_neg hnil]
    exact Text.pieces_joined hnil fun word hword => dash_not_mem_of_mem_words hword

/-- **Names are equal where the words are.** -/
theorem propertyName_eq_iff {stem stem' : String} {place place' : List String} :
    propertyName stem place = propertyName stem' place'
      ↔ words stem place = words stem' place' := by
  constructor
  · intro h
    rw [propertyName_eq, propertyName_eq, String.ofList_inj] at h
    have hpieces := congrArg (Text.pieces '-') (List.append_cancel_left h)
    rw [pieces_joined_words, pieces_joined_words] at hpieces
    -- a name without words is read as one empty word, which no other name is made of
    by_cases hnil : words stem place = [] <;> by_cases hnil' : words stem' place' = []
    · rw [hnil, hnil']
    · rw [if_pos hnil, if_neg hnil'] at hpieces
      exact absurd hpieces.symm (words_ne_singleton_nil _ _)
    · rw [if_neg hnil, if_pos hnil'] at hpieces
      exact absurd hpieces (words_ne_singleton_nil _ _)
    · rw [if_neg hnil, if_neg hnil'] at hpieces
      exact hpieces
  · intro h
    rw [propertyName_eq, propertyName_eq, h]

/-- A name holds the characters of names. -/
theorem isNameChar_of_mem_propertyName {stem : String} {place : List String} {c : Char}
    (h : c ∈ (propertyName stem place).toList) : Css.isNameChar c = true := by
  have hsanitize : ∀ key, ∀ c ∈ sanitize key, Css.isNameChar c = true := by
    intro key c hc
    obtain ⟨d, -, rfl⟩ := List.mem_map.1 hc
    split
    · next hkept => exact hkept
    · rfl
  have hstep : ∀ (keys : List String) (name : List Char),
      (∀ c ∈ name, Css.isNameChar c = true) →
        ∀ c ∈ keys.foldl propertyName.step name, Css.isNameChar c = true := by
    intro keys
    induction keys with
    | nil => exact fun name hname => hname
    | cons key rest ih =>
      intro name hname
      refine ih _ (List.forall_mem_append.2 ⟨?_, hsanitize key⟩)
      split
      · exact List.forall_mem_append.2 ⟨hname, List.all_eq_true.1 rfl⟩
      · exact hname
  unfold propertyName at h
  rw [String.toList_ofList] at h
  exact hstep place _ (List.forall_mem_append.2 ⟨List.all_eq_true.1 rfl, hsanitize stem⟩) c h

/-! ## §3. Plain places -/

/-- Every key of a place is made of nothing but letters, digits and underscores. -/
def IsPlain (place : List String) : Prop :=
  ∀ key ∈ place, ∀ c ∈ key.toList, isWordChar c = true

instance (place : List String) : Decidable (IsPlain place) :=
  inferInstanceAs (Decidable (∀ key ∈ place, ∀ c ∈ key.toList, isWordChar c = true))

/-- The words of plain keys are the keys. -/
theorem flatMap_keyWords_of_isPlain {place : List String} (h : IsPlain place) :
    place.flatMap keyWords = place.map String.toList := by
  induction place with
  | nil => rfl
  | cons key rest ih =>
    have hrest : IsPlain rest := fun other hother => h other (List.mem_cons_of_mem _ hother)
    rw [List.flatMap_cons, keyWords_of_forall (h key List.mem_cons_self), ih hrest]
    rfl

/-- With a stem every key has its words in a name. -/
theorem words_of_ne {stem : String} (h : stem ≠ "") (place : List String) :
    words stem place = keyWords stem ++ place.flatMap keyWords := by
  unfold words
  rw [List.dropWhile_cons_of_neg (by simpa using h), List.flatMap_cons]

/-- Without one, every key from the first that is not empty. -/
theorem words_empty (place : List String) :
    words "" place = (place.dropWhile fun key => key == "").flatMap keyWords := by
  unfold words
  rw [List.dropWhile_cons_of_pos (by simp)]

/-- **Plain places are told apart by their words**, if there is a stem or they do not begin with
    an empty key. -/
theorem eq_of_words_eq {stem : String} {place place' : List String} (hplain : IsPlain place)
    (hplain' : IsPlain place')
    (hfirst : stem ≠ "" ∨ (place.head? ≠ some "" ∧ place'.head? ≠ some ""))
    (h : words stem place = words stem place') : place = place' := by
  have hkeys : place.flatMap keyWords = place'.flatMap keyWords := by
    by_cases hstem : stem = ""
    · subst hstem
      obtain ⟨hhead, hhead'⟩ := hfirst.resolve_left (fun hne => hne rfl)
      -- nothing is dropped from a place that begins with a key
      have hkept : ∀ keys : List String, keys.head? ≠ some "" →
          (keys.dropWhile fun key => key == "") = keys := by
        intro keys hkeys
        cases keys with
        | nil => rfl
        | cons key rest => exact List.dropWhile_cons_of_neg (by simpa using hkeys)
      rw [words_empty, words_empty, hkept place hhead, hkept place' hhead'] at h
      exact h
    · rw [words_of_ne hstem, words_of_ne hstem] at h
      exact List.append_cancel_left h
  rw [flatMap_keyWords_of_isPlain hplain, flatMap_keyWords_of_isPlain hplain'] at hkeys
  exact List.map_injective_iff.2 (fun _ _ heq => String.toList_injective heq) hkeys

end Token

namespace TokenTable

open Token (words IsPlain propertyName_eq_iff)

/-! ## §4. Declared properties -/

/-- The declarations that a style sheet has lines for: properties with their values, in order. -/
def declared (table : TokenTable) : List (String × String) :=
  table.tokens.map fun token => (token.property, token.cssValue)

/-- The text between the braces of a style sheet: a line for each of these declarations. -/
def block (table : TokenTable) : String := String.join (table.declared.map Css.line)

/-- What a reference yields where these declarations hold.  Of those of one property the last
    counts. -/
def yielded (declared : List (String × String)) (reference : String) : Option String :=
  (declared.filter fun entry => "var(" ++ entry.1 ++ ")" == reference).getLast?.map Prod.snd

/-- Different places have different words. -/
def WordsApart (stem : String) (table : TokenTable) : Prop :=
  ∀ token ∈ table.tokens, ∀ other ∈ table.tokens,
    words stem token.place = words stem other.place → token.place = other.place

instance (stem : String) (table : TokenTable) : Decidable (table.WordsApart stem) :=
  inferInstanceAs (Decidable (∀ token ∈ table.tokens, ∀ other ∈ table.tokens,
    words stem token.place = words stem other.place → token.place = other.place))

theorem css_eq (table : TokenTable) (selector : String) :
    table.css selector = selector ++ " \x7b\n" ++ String.join (table.declared.map fun entry =>
      "  " ++ entry.1 ++ ": " ++ entry.2 ++ ";\n") ++ "\x7d\n" := by
  unfold css declared
  rw [List.map_map]
  rfl

theorem css_block (table : TokenTable) (selector : String) :
    table.css selector = selector ++ " \x7b\n" ++ table.block ++ "\x7d\n" := css_eq table selector

/-- No string of the table breaks out of its declaration. -/
def StringsContained (table : TokenTable) : Prop :=
  ∀ token ∈ table.tokens, ∀ s, token.value = .str s → Css.Contained s

/-- A reference yields the value of the last token that has its property. -/
theorem yielded_reference (table : TokenTable) (token : Token) :
    yielded table.declared token.reference
      = (table.tokens.filter fun other => other.property == token.property).getLast?.map
          Token.cssValue := by
  have hsame : ∀ other : Token, ("var(" ++ other.property ++ ")" == token.reference)
      = (other.property == token.property) := by
    intro other
    rw [Bool.eq_iff_iff, beq_iff_eq, beq_iff_eq]
    unfold Token.reference
    rw [String.append_left_inj, String.append_right_inj]
  unfold yielded declared
  rw [List.filter_map, List.getLast?_map, Option.map_map]
  congr 2
  exact List.filter_congr fun other _ => hsame other

/-- Plain places are kept apart. -/
theorem wordsApart_of_isPlain {stem : String} {table : TokenTable}
    (hplain : ∀ token ∈ table.tokens, IsPlain token.place)
    (hfirst : stem ≠ "" ∨ ∀ token ∈ table.tokens, token.place.head? ≠ some "") :
    table.WordsApart stem := by
  intro token htoken other hother hwords
  have hheads : stem ≠ "" ∨ (token.place.head? ≠ some "" ∧ other.place.head? ≠ some "") :=
    hfirst.imp id fun hheads => ⟨hheads token htoken, hheads other hother⟩
  exact Token.eq_of_words_eq (hplain token htoken) (hplain other hother) hheads hwords

section Trees

variable (stem : String) {exports : Tree} (hdistinct : exports.Distinct)

include hdistinct

theorem property_of_mem {token : Token} (h : token ∈ (ofTree stem exports).tokens) :
    token.property = Token.propertyName stem token.place := by
  rw [(indexed_ofTree stem hdistinct).2] at h
  obtain ⟨leaf, -, rfl⟩ := List.mem_map.1 h
  rfl

/-- Tokens share a property if their places have the same words. -/
theorem property_eq_iff {token other : Token} (h : token ∈ (ofTree stem exports).tokens)
    (hother : other ∈ (ofTree stem exports).tokens) :
    token.property = other.property ↔ words stem token.place = words stem other.place := by
  rw [property_of_mem stem hdistinct h, property_of_mem stem hdistinct hother,
    propertyName_eq_iff]

/-- No two tokens of a table have one place. -/
theorem eq_of_place_eq {token other : Token} (h : token ∈ (ofTree stem exports).tokens)
    (hother : other ∈ (ofTree stem exports).tokens) (hplace : token.place = other.place) :
    token = other :=
  List.inj_on_of_nodup_map (indexed_ofTree stem hdistinct).1.nodup h hother hplace

/-- **No property is declared twice just where different places have different words.** -/
theorem nodup_declared_iff :
    (Entries.keys (ofTree stem exports).declared).Nodup
      ↔ (ofTree stem exports).WordsApart stem := by
  have hnodup : (ofTree stem exports).tokens.Nodup :=
    (indexed_ofTree stem hdistinct).1.nodup.of_map
  unfold Entries.keys declared
  rw [List.map_map]
  show ((ofTree stem exports).tokens.map Token.property).Nodup ↔ _
  rw [List.nodup_map_iff_inj_on hnodup]
  constructor
  · intro hinj token htoken other hother hwords
    have hproperty := (property_eq_iff stem hdistinct htoken hother).2 hwords
    rw [hinj token htoken other hother hproperty]
  · intro hapart token htoken other hother hproperty
    have hwords := (property_eq_iff stem hdistinct htoken hother).1 hproperty
    exact eq_of_place_eq stem hdistinct htoken hother (hapart token htoken other hother hwords)

/-- The tokens with the property of a token are those with its words. -/
theorem yielded_of_mem {token : Token} (h : token ∈ (ofTree stem exports).tokens) :
    yielded (ofTree stem exports).declared token.reference
      = ((ofTree stem exports).tokens.filter fun other =>
          words stem other.place = words stem token.place).getLast?.map Token.cssValue := by
  rw [yielded_reference]
  congr 2
  refine List.filter_congr fun other hother => ?_
  rw [Bool.eq_iff_iff, beq_iff_eq, decide_eq_true_iff]
  exact property_eq_iff stem hdistinct hother h

/-- Where different places have different words, these are the token alone. -/
theorem yielded_of_wordsApart (hapart : (ofTree stem exports).WordsApart stem) {token : Token}
    (h : token ∈ (ofTree stem exports).tokens) :
    yielded (ofTree stem exports).declared token.reference = some token.cssValue := by
  rw [yielded_of_mem stem hdistinct h]
  have hmem : token ∈ (ofTree stem exports).tokens.filter fun other =>
      words stem other.place = words stem token.place :=
    List.mem_filter.2 ⟨h, decide_eq_true rfl⟩
  cases hlast : ((ofTree stem exports).tokens.filter fun other =>
      words stem other.place = words stem token.place).getLast? with
  | none =>
    rw [List.getLast?_eq_none_iff] at hlast
    rw [hlast] at hmem
    cases hmem
  | some last =>
    -- the last token with these words has the place of ours, so it is ours
    obtain ⟨hother, hwords⟩ := List.mem_filter.1 (List.mem_of_getLast? hlast)
    have hplace := hapart last hother token h (of_decide_eq_true hwords)
    rw [eq_of_place_eq stem hdistinct hother h hplace]
    rfl

/-- What is published is a scalar. -/
theorem not_isContainer_of_mem {token : Token} (h : token ∈ (ofTree stem exports).tokens) :
    token.value.isContainer = false := by
  rw [(indexed_ofTree stem hdistinct).2] at h
  obtain ⟨leaf, hleaf, rfl⟩ := List.mem_map.1 h
  exact Tree.not_isContainer_of_mem_leaves exports leaf (List.mem_filter.1 hleaf).1

/-- **The text of a sheet declares what its lines were written for**, if its strings stay inside
    of their declarations.  Its numbers and truth values always do. -/
theorem declarations?_block (hstrings : (ofTree stem exports).StringsContained) :
    Css.declarations? (ofTree stem exports).block.toList
      = some (ofTree stem exports).declared := by
  have hnames : ∀ entry ∈ (ofTree stem exports).declared,
      ∀ c ∈ entry.1.toList, Css.isNameChar c = true := by
    intro entry hentry c hc
    obtain ⟨token, htoken, rfl⟩ := List.mem_map.1 hentry
    rw [property_of_mem stem hdistinct htoken] at hc
    exact Token.isNameChar_of_mem_propertyName hc
  have hvalues : ∀ entry ∈ (ofTree stem exports).declared, Css.Contained entry.2 := by
    intro entry hentry
    obtain ⟨token, htoken, rfl⟩ := List.mem_map.1 hentry
    show Css.Contained token.cssValue
    unfold Token.cssValue
    split
    · next s hs => exact hstrings token htoken s hs
    · next hnotStr =>
      exact Css.contained_write_of_not_str (not_isContainer_of_mem stem hdistinct htoken) hnotStr
  have hread := Css.declarations?_lines hnames hvalues (List.forall_mem_nil _)
  rwa [List.nil_append] at hread

/-- **Tokens share a property just where their places have the same words.**  A style sheet has
    one line for each token, in order, and the last line with the property of a reference has the
    value of the last token with its words.  So if different places have different words, and
    only then, no two lines have one property; and the line of a reference then has the value of
    its own token.  Plain keys are enough for that, if the stem is not empty or no place begins
    with an empty key.  The text of the lines declares just what they were written for, if its
    strings stay inside of their declarations. -/
theorem properties_tell_words_apart :
    (∀ token ∈ (ofTree stem exports).tokens, ∀ other ∈ (ofTree stem exports).tokens,
      (token.property = other.property ↔ words stem token.place = words stem other.place)) ∧
    (∀ selector, (ofTree stem exports).css selector
      = selector ++ " \x7b\n" ++ (ofTree stem exports).block ++ "\x7d\n") ∧
    (∀ token ∈ (ofTree stem exports).tokens,
      yielded (ofTree stem exports).declared token.reference
        = ((ofTree stem exports).tokens.filter fun other =>
            words stem other.place = words stem token.place).getLast?.map Token.cssValue) ∧
    ((Entries.keys (ofTree stem exports).declared).Nodup
      ↔ (ofTree stem exports).WordsApart stem) ∧
    ((ofTree stem exports).WordsApart stem → ∀ token ∈ (ofTree stem exports).tokens,
      yielded (ofTree stem exports).declared token.reference = some token.cssValue) ∧
    ((∀ token ∈ (ofTree stem exports).tokens, IsPlain token.place) →
      (stem ≠ "" ∨ ∀ token ∈ (ofTree stem exports).tokens, token.place.head? ≠ some "") →
      (ofTree stem exports).WordsApart stem) ∧
    ((ofTree stem exports).StringsContained →
      Css.declarations? (ofTree stem exports).block.toList
        = some (ofTree stem exports).declared) := by
  refine ⟨?_, css_block _, ?_, nodup_declared_iff stem hdistinct, ?_, wordsApart_of_isPlain,
    declarations?_block stem hdistinct⟩
  · intro token htoken other hother
    exact property_eq_iff stem hdistinct htoken hother
  · intro token htoken
    exact yielded_of_mem stem hdistinct htoken
  · intro hapart token htoken
    exact yielded_of_wordsApart stem hdistinct hapart htoken

end Trees

/-- A sheet whose keys hold dashes, dots and blanks, and are still told apart, and whose strings
    hold quotes, brackets and semicolons, and are still contained. -/
def spacedSheet : Tree :=
  .obj [("color", .obj [("brand-primary", .str "rgb(18, 52, 86)"), ("brand", .str "#fff")]),
    ("line height", .arr [.ofInt 1, .null, .ofInt 2]), ("radius.sm", .str "2px"),
    ("icon", .str "url(\"data:image/png;base64,iVBOR\")")]

/-- Its places have different words, so each reference yields the value of its own token. -/
theorem properties_tell_words_apart_spacedSheet :
    spacedSheet.Distinct ∧ (ofTree "acme" spacedSheet).WordsApart "acme" ∧
      (ofTree "acme" spacedSheet).StringsContained ∧
      Css.declarations? (ofTree "acme" spacedSheet).block.toList
        = some (ofTree "acme" spacedSheet).declared ∧
      Entries.keys (ofTree "acme" spacedSheet).declared
        = ["--acme-color-brand-primary", "--acme-color-brand", "--acme-line-height-0",
          "--acme-line-height-2", "--acme-radius-sm", "--acme-icon"] ∧
      (Entries.keys (ofTree "acme" spacedSheet).declared).Nodup ∧
      yielded (ofTree "acme" spacedSheet).declared "var(--acme-color-brand)" = some "#fff" := by
  have hdistinct : spacedSheet.Distinct := by decide +kernel
  have hapart : (ofTree "acme" spacedSheet).WordsApart "acme" := by decide +kernel
  have hvalues : ∀ token ∈ (ofTree "acme" spacedSheet).tokens, Css.Contained token.cssValue := by
    decide +kernel
  have hcontained : (ofTree "acme" spacedSheet).StringsContained := by
    intro token htoken s hs
    have hvalue := hvalues token htoken
    unfold Token.cssValue at hvalue
    rw [hs] at hvalue
    exact hvalue
  obtain ⟨-, -, -, hnodup, hyielded, -, htext⟩ := properties_tell_words_apart "acme" hdistinct
  have hbrand : (⟨["color", "brand"], "--acme-color-brand", .str "#fff"⟩ : Token)
      ∈ (ofTree "acme" spacedSheet).tokens := by decide +kernel
  exact ⟨hdistinct, hapart, hcontained, htext hcontained, by decide +kernel, hnodup.2 hapart,
    hyielded hapart _ hbrand⟩

/-! ## §5. Properties that are declared twice -/

/-- A sheet with a dash in one key, and a joint in its place in others. -/
def dashedSheet : Tree :=
  .obj [("a-b", .ofInt 1), ("a", .obj [("b", .ofInt 2)])]

/-- A sheet with a value that goes on behind a semicolon. -/
def spilledSheet : Tree :=
  .obj [("b", .str "3"), ("a", .str "1; --b: 2")]

/-- **A property can be declared twice.**  Tokens with different places can share it, and then the
    reference of the first token yields the value of the second.  Or the value of one token holds
    a declaration of the property of another, though the words of their places differ. -/
theorem declared_twice :
    (dashedSheet.Distinct ∧
      ∃ token ∈ (ofTree "" dashedSheet).tokens, ∃ other ∈ (ofTree "" dashedSheet).tokens,
        token.place ≠ other.place ∧ token.property = other.property ∧
        Css.declarations? (ofTree "" dashedSheet).block.toList
          = some (ofTree "" dashedSheet).declared ∧
        ¬ (Entries.keys (ofTree "" dashedSheet).declared).Nodup ∧
        yielded (ofTree "" dashedSheet).declared token.reference = some other.cssValue ∧
        token.cssValue ≠ other.cssValue) ∧
    (spilledSheet.Distinct ∧ (ofTree "" spilledSheet).WordsApart "" ∧
      ∃ declared, Css.declarations? (ofTree "" spilledSheet).block.toList = some declared ∧
        Entries.keys declared = ["--b", "--a", "--b"] ∧
        yielded declared "var(--b)" = some "2") := by
  refine ⟨⟨by decide +kernel, ⟨["a-b"], "--a-b", .ofInt 1⟩, by decide +kernel,
    ⟨["a", "b"], "--a-b", .ofInt 2⟩, by decide +kernel, by decide, rfl, ?_, ?_, ?_, ?_⟩,
    by decide +kernel, by decide +kernel,
    [("--b", "3"), ("--a", "1"), ("--b", "2")], by decide +kernel, rfl, by decide +kernel⟩
  · decide +kernel
  · decide +kernel
  · decide +kernel
  · decide +kernel

end TokenTable

end DesignTokens
