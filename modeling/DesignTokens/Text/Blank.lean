/-
  DesignTokens.Text.Blank — blank characters, and a text without the blanks at its ends.

  A character is blank when it has the Unicode property `White_Space`.  The property is fixed
  by the Unicode stability policy, so the list below is closed.

  Main facts:
    * `trim_eq_self` — a text whose first and last characters are not blank is left alone.
    * `exists_eq_blanks_trim` — trimming takes away nothing but blanks.
    * `trim_blanks` — blanks at the ends do not change what trimming leaves.
-/

namespace DesignTokens.Text

/-! ## §1. The class -/

/-- The characters with the Unicode property `White_Space`. -/
def isBlank (c : Char) : Bool :=
  let n := c.toNat
  (9 ≤ n && n ≤ 13) || n == 0x20 || n == 0x85 || n == 0xA0 || n == 0x1680 ||
    (0x2000 ≤ n && n ≤ 0x200A) || n == 0x2028 || n == 0x2029 || n == 0x202F ||
    n == 0x205F || n == 0x3000

/-! ## §2. Trimming -/

/-- A text without the blanks at its front. -/
def trimStart (s : List Char) : List Char := s.dropWhile isBlank

/-- A text without the blanks at its end. -/
def trimEnd (s : List Char) : List Char := (s.reverse.dropWhile isBlank).reverse

/-- A text without the blanks at both ends. -/
def trim (s : List Char) : List Char := trimEnd (trimStart s)

/-- Whether a string holds nothing but blanks. -/
def isAllBlank (s : String) : Bool := s.toList.all isBlank

theorem trimStart_cons {c : Char} (s : List Char) (h : isBlank c = false) :
    trimStart (c :: s) = c :: s := by
  simp [trimStart, h]

theorem trimEnd_concat {c : Char} (s : List Char) (h : isBlank c = false) :
    trimEnd (s ++ [c]) = s ++ [c] := by
  simp [trimEnd, h]

/-- A text whose first and last characters are not blank is left alone. -/
theorem trim_eq_self {s : List Char} (hfirst : ∀ c ∈ s.head?, isBlank c = false)
    (hlast : ∀ c ∈ s.getLast?, isBlank c = false) : trim s = s := by
  rcases s.eq_nil_or_concat with rfl | ⟨r, c, rfl⟩
  · rfl
  · have hc : isBlank c = false := hlast c (by simp)
    have hstart : trimStart (r ++ [c]) = r ++ [c] := by
      cases r with
      | nil => exact trimStart_cons [] hc
      | cons d r => exact trimStart_cons (r ++ [c]) (hfirst d (by simp))
    rw [List.concat_eq_append, trim, hstart, trimEnd_concat r hc]

theorem trim_eq_self_of_forall {s : List Char} (h : ∀ c ∈ s, isBlank c = false) : trim s = s :=
  trim_eq_self (fun c hc => h c (List.mem_of_mem_head? hc))
    (fun c hc => h c (List.mem_of_mem_getLast? hc))

/-! ## §3. What trimming takes away -/

/-- Trimming takes away nothing but blanks. -/
theorem exists_eq_blanks_trim (s : List Char) :
    ∃ front back, (∀ b ∈ front, isBlank b = true) ∧ (∀ b ∈ back, isBlank b = true) ∧
      s = front ++ trim s ++ back := by
  refine ⟨s.takeWhile isBlank, ((trimStart s).reverse.takeWhile isBlank).reverse, ?_, ?_, ?_⟩
  · intro b hb
    exact List.all_eq_true.1 List.all_takeWhile b hb
  · intro b hb
    exact List.all_eq_true.1 List.all_takeWhile b (List.mem_reverse.1 hb)
  · rw [List.append_assoc, trim, trimEnd, ← List.reverse_append, List.takeWhile_append_dropWhile,
      List.reverse_reverse, trimStart, List.takeWhile_append_dropWhile]

/-- A character that is not blank stays. -/
theorem mem_trim_of_mem {c : Char} (hc : isBlank c = false) {s : List Char} (h : c ∈ s) :
    c ∈ trim s := by
  obtain ⟨front, back, hfront, hback, hs⟩ := exists_eq_blanks_trim s
  have hblank : ¬ isBlank c = true := by
    rw [hc]
    exact Bool.false_ne_true
  rw [hs, List.append_assoc, List.mem_append, List.mem_append] at h
  rcases h with hin | hin | hin
  · exact absurd (hfront c hin) hblank
  · exact hin
  · exact absurd (hback c hin) hblank

theorem trimEnd_blanks {back : List Char} (h : ∀ b ∈ back, isBlank b = true)
    (s : List Char) : trimEnd (s ++ back) = trimEnd s := by
  unfold trimEnd
  rw [List.reverse_append, List.dropWhile_append_of_pos fun b hb => h b (List.mem_reverse.1 hb)]

/-- Blanks at the ends do not change what trimming leaves. -/
theorem trim_blanks {front back : List Char} (hfront : ∀ b ∈ front, isBlank b = true)
    (hback : ∀ b ∈ back, isBlank b = true) (s : List Char) :
    trim (front ++ s ++ back) = trim s := by
  unfold trim trimStart
  rw [List.append_assoc, List.dropWhile_append_of_pos hfront, List.dropWhile_append]
  by_cases hempty : s.dropWhile isBlank = []
  · -- a text of blanks leaves nothing, and neither do the blanks behind it
    have hdrop : (back ++ []).dropWhile isBlank = [] := List.dropWhile_append_of_pos hback
    rw [List.append_nil] at hdrop
    rw [hempty, hdrop]
    rfl
  · rw [if_neg (by simpa using hempty), trimEnd_blanks hback]

theorem trim_blanks_front {front : List Char} (h : ∀ b ∈ front, isBlank b = true)
    (s : List Char) : trim (front ++ s) = trim s := by
  have htrim := trim_blanks h (List.forall_mem_nil _) s
  rwa [List.append_nil] at htrim

end DesignTokens.Text
