/-
  DesignTokens.Entries — maps that keep the order in which their keys were written.

  A map is the list of its entries.  Writing to a key that is present keeps its place, a new
  key goes to the end, and removing an entry shifts the later ones up.  Keys are mostly texts;
  the tables of loaded and of built documents have paths for keys.

  Main facts:
    * `get?_put_self`, `get?_put_of_ne` — what a write changes, and what it leaves alone.
    * `keys_put_of_mem`, `keys_put_of_not_mem` — the order of the keys after a write.
    * `put_put_self`, `put_of_get?`, `put_comm` — writes after one another.
    * `get?_append_cons`, `erase_append_cons` — of the entries with one key the first counts.
    * `nodup_keys_put`, `nodup_keys_erase` — writing and removing keep the keys distinct.
    * `not_mem_keys_erase` — where the keys are distinct, a key that is removed is gone.
-/

namespace DesignTokens

/-- A map from strings, as its entries in written order. -/
abbrev Entries (α : Type) := List (String × α)

namespace Entries

variable {κ α : Type} [DecidableEq κ]

/-! ## §1. Operations -/

/-- The keys in written order. -/
def keys {κ α : Type} (entries : List (κ × α)) : List κ := entries.map Prod.fst

/-- The value under a key. -/
def get? (key : κ) : List (κ × α) → Option α
  | [] => none
  | (k, v) :: rest => if k = key then some v else get? key rest

/-- Whether a key is present. -/
def has (key : κ) (entries : List (κ × α)) : Bool := (get? key entries).isSome

/-- Writes a value under a key: in its place if the key is present, else at the end. -/
def put (key : κ) (value : α) : List (κ × α) → List (κ × α)
  | [] => [(key, value)]
  | (k, v) :: rest => if k = key then (k, value) :: rest else (k, v) :: put key value rest

/-- Removes the entry with a key. -/
def erase (key : κ) : List (κ × α) → List (κ × α)
  | [] => []
  | (k, v) :: rest => if k = key then rest else (k, v) :: erase key rest

/-- The map that is written entry by entry: of equal keys the first place and the last value
    stay. -/
def ofWrites (writes : List (κ × α)) : List (κ × α) :=
  writes.foldl (fun entries (k, v) => put k v entries) []

/-! ## §2. Laws -/

@[simp] theorem get?_nil (key : κ) : get? key ([] : List (κ × α)) = none := rfl

@[simp] theorem get?_put_self (key : κ) (value : α) (entries : List (κ × α)) :
    get? key (put key value entries) = some value := by
  induction entries with
  | nil => simp [put, get?]
  | cons entry rest ih =>
    obtain ⟨k, v⟩ := entry
    by_cases h : k = key <;> simp [put, get?, h, ih]

theorem get?_put_of_ne {key other : κ} (hne : other ≠ key) (value : α)
    (entries : List (κ × α)) : get? other (put key value entries) = get? other entries := by
  induction entries with
  | nil => simp [put, get?, Ne.symm hne]
  | cons entry rest ih =>
    obtain ⟨k, v⟩ := entry
    by_cases h : k = key
    · subst h; simp [put, get?, Ne.symm hne]
    · simp [put, get?, h, ih]

theorem get?_eq_none_iff {key : κ} {entries : List (κ × α)} :
    get? key entries = none ↔ key ∉ keys entries := by
  induction entries with
  | nil => simp [keys]
  | cons entry rest ih =>
    obtain ⟨k, v⟩ := entry
    by_cases h : k = key
    · simp [get?, keys, h]
    · simpa [get?, keys, h, Ne.symm h] using ih

theorem mem_of_get? {key : κ} {value : α} {entries : List (κ × α)}
    (h : get? key entries = some value) : (key, value) ∈ entries := by
  induction entries with
  | nil => simp at h
  | cons entry rest ih =>
    obtain ⟨k, v⟩ := entry
    rw [get?] at h
    split at h
    · next hk =>
      obtain rfl : v = value := by simpa using h
      rw [hk]
      exact List.mem_cons_self
    · exact List.mem_cons_of_mem _ (ih h)

/-- Where the keys are distinct, every entry is found under its key. -/
theorem get?_of_mem {key : κ} {value : α} {entries : List (κ × α)} (h : (keys entries).Nodup)
    (hmem : (key, value) ∈ entries) : get? key entries = some value := by
  induction entries with
  | nil => cases hmem
  | cons entry rest ih =>
    obtain ⟨k, v⟩ := entry
    obtain ⟨hk, hrest⟩ := List.nodup_cons.1 h
    rw [get?]
    rcases List.mem_cons.1 hmem with heq | hmem
    · cases heq
      rw [if_pos rfl]
    · have hkey : key ∈ keys rest := List.mem_map_of_mem (f := Prod.fst) hmem
      have hne : k ≠ key := by
        rintro rfl
        exact hk hkey
      rw [if_neg hne, ih hrest hmem]

/-- Of the entries with one key the first is found. -/
theorem get?_append_cons {key : κ} {front : List (κ × α)} (h : key ∉ keys front) (value : α)
    (back : List (κ × α)) : get? key (front ++ (key, value) :: back) = some value := by
  induction front with
  | nil => rw [List.nil_append, get?, if_pos rfl]
  | cons entry rest ih =>
    have hne : key ≠ entry.1 := List.ne_of_not_mem_cons h
    have hrest : key ∉ keys rest := List.not_mem_of_not_mem_cons h
    rw [List.cons_append, get?, if_neg (Ne.symm hne), ih hrest]

/-- And the first is removed, the entries around it keeping their order. -/
theorem erase_append_cons {key : κ} {front : List (κ × α)} (h : key ∉ keys front) (value : α)
    (back : List (κ × α)) : erase key (front ++ (key, value) :: back) = front ++ back := by
  induction front with
  | nil => rw [List.nil_append, erase, if_pos rfl, List.nil_append]
  | cons entry rest ih =>
    have hne : key ≠ entry.1 := List.ne_of_not_mem_cons h
    have hrest : key ∉ keys rest := List.not_mem_of_not_mem_cons h
    rw [List.cons_append, erase, if_neg (Ne.symm hne), ih hrest, List.cons_append]

/-- An entry that stands there after a write was written or stood there before. -/
theorem mem_put {key : κ} {value : α} {entries : List (κ × α)} {entry : κ × α}
    (h : entry ∈ put key value entries) : entry = (key, value) ∨ entry ∈ entries := by
  induction entries with
  | nil => exact Or.inl (List.mem_singleton.1 h)
  | cons head rest ih =>
    obtain ⟨k, v⟩ := head
    rw [put] at h
    split at h
    · next hk =>
      rw [hk] at h
      rcases List.mem_cons.1 h with h | h
      · exact Or.inl h
      · exact Or.inr (List.mem_cons_of_mem _ h)
    · rcases List.mem_cons.1 h with h | h
      · exact Or.inr (h ▸ List.mem_cons_self)
      · exact (ih h).imp id (List.mem_cons_of_mem _)

/-- Writing to a key that is present leaves the keys as they are. -/
theorem keys_put_of_mem {key : κ} {entries : List (κ × α)} (h : key ∈ keys entries)
    (value : α) : keys (put key value entries) = keys entries := by
  induction entries with
  | nil => simp [keys] at h
  | cons entry rest ih =>
    obtain ⟨k, v⟩ := entry
    by_cases hk : k = key
    · simp [put, keys, hk]
    · have hrest : key ∈ keys rest := by
        simpa [keys, Ne.symm hk] using h
      simpa [put, keys, hk] using ih hrest

/-- A new key goes to the end with its value. -/
theorem put_of_not_mem {key : κ} {entries : List (κ × α)} (h : key ∉ keys entries)
    (value : α) : put key value entries = entries ++ [(key, value)] := by
  induction entries with
  | nil => rfl
  | cons entry rest ih =>
    obtain ⟨k, v⟩ := entry
    have hk : k ≠ key := fun hk => h (by simp [keys, hk])
    have hrest : key ∉ keys rest := fun hmem => h (List.mem_cons_of_mem _ hmem)
    rw [put, if_neg hk, ih hrest, List.cons_append]

/-- A new key goes to the end. -/
theorem keys_put_of_not_mem {key : κ} {entries : List (κ × α)} (h : key ∉ keys entries)
    (value : α) : keys (put key value entries) = keys entries ++ [key] := by
  rw [put_of_not_mem h, keys, List.map_append]
  rfl

/-- Of two writes to one key the second counts. -/
theorem put_put_self (key : κ) (first second : α) (entries : List (κ × α)) :
    put key second (put key first entries) = put key second entries := by
  induction entries with
  | nil => rw [put, put, put, if_pos rfl]
  | cons entry rest ih =>
    obtain ⟨k, v⟩ := entry
    rw [put, put]
    split
    · next hk => rw [put, if_pos hk]
    · next hk => rw [put, if_neg hk, ih]

/-- Writing what is there changes nothing. -/
theorem put_of_get? {key : κ} {value : α} {entries : List (κ × α)}
    (h : get? key entries = some value) : put key value entries = entries := by
  induction entries with
  | nil => cases h
  | cons entry rest ih =>
    obtain ⟨k, v⟩ := entry
    rw [get?] at h
    rw [put]
    split at h
    · next hk =>
      obtain rfl : v = value := Option.some.inj h
      rw [if_pos hk]
    · next hk => rw [if_neg hk, ih h]

/-- Writes to two keys can be made in either order, unless both keys are new. -/
theorem put_comm {key other : κ} (hne : key ≠ other) {entries : List (κ × α)}
    (h : key ∈ keys entries) (value value' : α) :
    put key value (put other value' entries) = put other value' (put key value entries) := by
  induction entries with
  | nil => cases h
  | cons entry rest ih =>
    obtain ⟨k, v⟩ := entry
    by_cases hk : k = key
    · have hother : k ≠ other := fun hk' => hne (hk.symm.trans hk')
      rw [put, if_neg hother, put, if_pos hk, put, if_pos hk, put, if_neg hother]
    · have hrest : key ∈ keys rest := List.mem_of_ne_of_mem (Ne.symm hk) h
      by_cases hk' : k = other
      · rw [put, if_pos hk', put, if_neg hk, put, if_neg hk, put, if_pos hk']
      · rw [put, if_neg hk', put, if_neg hk, put, if_neg hk, put, if_neg hk', ih hrest]

/-- A key that is written anew and removed leaves no trace. -/
theorem erase_put_of_not_mem {key : κ} {entries : List (κ × α)} (h : key ∉ keys entries)
    (value : α) : erase key (put key value entries) = entries := by
  rw [put_of_not_mem h, erase_append_cons h, List.append_nil]

/-- After a write its key is there, and so are the keys from before. -/
theorem mem_keys_put_iff {key other : κ} {value : α} {entries : List (κ × α)} :
    other ∈ keys (put key value entries) ↔ other ∈ keys entries ∨ other = key := by
  by_cases hmem : key ∈ keys entries
  · rw [keys_put_of_mem hmem]
    exact ⟨Or.inl, fun h => h.elim id fun heq => heq ▸ hmem⟩
  · rw [keys_put_of_not_mem hmem, List.mem_append, List.mem_singleton]

/-- Writing keeps the keys distinct. -/
theorem nodup_keys_put {entries : List (κ × α)} (h : (keys entries).Nodup) (key : κ)
    (value : α) : (keys (put key value entries)).Nodup := by
  by_cases hmem : key ∈ keys entries
  · rwa [keys_put_of_mem hmem]
  · rw [keys_put_of_not_mem hmem]
    exact List.nodup_append.2 ⟨h, by simp, by
      intro a ha b hb
      rw [List.mem_singleton.1 hb]
      exact fun hab => hmem (hab ▸ ha)⟩

theorem keys_erase_sublist (key : κ) (entries : List (κ × α)) :
    (keys (erase key entries)).Sublist (keys entries) := by
  induction entries with
  | nil => simp [erase, keys]
  | cons entry rest ih =>
    obtain ⟨k, v⟩ := entry
    by_cases hk : k = key
    · simp [erase, keys, hk]
    · simpa [erase, keys, hk] using ih

/-- An entry that is left after a removal stood there before. -/
theorem mem_of_mem_erase {key : κ} {entries : List (κ × α)} {entry : κ × α}
    (h : entry ∈ erase key entries) : entry ∈ entries := by
  induction entries with
  | nil => exact h
  | cons head rest ih =>
    obtain ⟨k, v⟩ := head
    rw [erase] at h
    split at h
    · exact List.mem_cons_of_mem _ h
    · rcases List.mem_cons.1 h with h | h
      · exact h ▸ List.mem_cons_self
      · exact List.mem_cons_of_mem _ (ih h)

/-- Removing keeps the keys distinct. -/
theorem nodup_keys_erase {entries : List (κ × α)} (h : (keys entries).Nodup) (key : κ) :
    (keys (erase key entries)).Nodup :=
  h.sublist (keys_erase_sublist key entries)

/-- Where the keys are distinct, a key that is removed is gone. -/
theorem not_mem_keys_erase {entries : List (κ × α)} (h : (keys entries).Nodup) (key : κ) :
    key ∉ keys (erase key entries) := by
  induction entries with
  | nil => exact List.not_mem_nil
  | cons entry rest ih =>
    obtain ⟨k, v⟩ := entry
    obtain ⟨hk, hrest⟩ := List.nodup_cons.1 h
    rw [erase]
    split
    · next heq => exact heq ▸ hk
    · next hne =>
      intro hmem
      rcases List.mem_cons.1 hmem with heq | hmem
      · exact hne heq.symm
      · exact ih hrest hmem

end Entries

end DesignTokens
