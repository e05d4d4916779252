import AudienceFilter.Proofs.EscapedValues

/-!
# Parentheses in query texts

A parenthesis counts unless a backslash escapes it. Texts are put behind each other, so what a
text leaves open is only known if it does not end in a backslash that would escape the first
character of the next one.

* `Text.balance`, `Text.endsOpen`: the parentheses of a text, and whether it ends in an escape;
* `Text.Nested`: a text that leaves a number of parentheses open and closes none too many;
* `Text.Balanced`: a text that leaves none open, which trimming keeps (`balanced_trim`).
-/

namespace AudienceFilter.Text

/-- What a character adds to the open parentheses. -/
def bracket (c : Char) : Int := if c = '(' then 1 else if c = ')' then -1 else 0

/-- The unescaped parentheses that open minus those that close. -/
def balance : List Char → Int
  | [] => 0
  | [c] => bracket c
  | a :: b :: rest => if a = '\\' then balance rest else bracket a + balance (b :: rest)

/-- Whether the last character is a backslash that is not escaped itself. -/
def endsOpen : List Char → Bool
  | [] => false
  | [c] => c == '\\'
  | a :: b :: rest => if a = '\\' then endsOpen rest else endsOpen (b :: rest)

/-- Whether a text leaves no parenthesis open, and closes none that is not open. -/
structure Balanced (text : String) : Prop where
  balance : balance text.toList = 0
  prefixes : ∀ cs, cs <+: text.toList → 0 ≤ Text.balance cs

/-- Whether a text leaves so many parentheses open, closes none that is not open, and does not
escape what follows it. -/
structure Nested (depth : Nat) (text : String) : Prop where
  balance : balance text.toList = depth
  prefixes : ∀ cs, cs <+: text.toList → 0 ≤ Text.balance cs
  complete : endsOpen text.toList = false

/-! ## Texts behind each other -/

theorem balance_cons {c : Char} (hc : c ≠ '\\') (cs : List Char) :
    balance (c :: cs) = bracket c + balance cs := by
  cases cs with
  | nil => rw [balance, balance, Int.add_zero]
  | cons d ds => rw [balance, if_neg hc]

theorem balance_append {cs : List Char} (h : endsOpen cs = false) (ds : List Char) :
    balance (cs ++ ds) = balance cs + balance ds := by
  fun_induction endsOpen cs with
  | case1 => rw [List.nil_append, balance, Int.zero_add]
  | case2 c =>
    have hc : c ≠ '\\' := by simpa using h
    rw [List.singleton_append, balance_cons hc, balance]
  | case3 b rest ih =>
    rw [List.cons_append, List.cons_append, balance, if_pos rfl, ih h, balance, if_pos rfl]
  | case4 a b rest ha ih =>
    rw [List.cons_append, balance_cons ha, ih h, balance_cons ha, Int.add_assoc]

theorem endsOpen_append {cs : List Char} (h : endsOpen cs = false) (ds : List Char) :
    endsOpen (cs ++ ds) = endsOpen ds := by
  fun_induction endsOpen cs with
  | case1 => rfl
  | case2 c =>
    have hc : c ≠ '\\' := by simpa using h
    cases ds with
    | nil => simpa [endsOpen] using hc
    | cons d ds => simp [endsOpen, hc]
  | case3 b rest ih =>
    rw [List.cons_append, List.cons_append, endsOpen, if_pos rfl, ih h]
  | case4 a b rest ha ih =>
    rw [List.cons_append, List.cons_append, endsOpen, if_neg ha, ← List.cons_append, ih h]

variable {s t : String} {m n : Nat}

/-- What two texts leave open adds up. -/
theorem Nested.append (hs : Nested m s) (ht : Nested n t) : Nested (m + n) (s ++ t) where
  balance := by
    rw [String.toList_append, balance_append hs.complete, hs.balance, ht.balance]
    rfl
  prefixes := by
    rintro cs ⟨rest, h⟩
    rw [String.toList_append] at h
    rcases List.append_eq_append_iff.1 h with ⟨ds, hds, -⟩ | ⟨ds, rfl, hds⟩
    · exact hs.prefixes cs ⟨ds, hds.symm⟩
    · rw [balance_append hs.complete, hs.balance]
      exact Int.add_nonneg (Int.natCast_nonneg m) (ht.prefixes ds ⟨rest, hds.symm⟩)
  complete := by rw [String.toList_append, endsOpen_append hs.complete, ht.complete]

/-- A parenthesis that is open can be closed. -/
theorem Nested.close (hs : Nested (n + 1) s) : Nested n (s ++ ")") where
  balance := by
    rw [String.toList_append, balance_append hs.complete, hs.balance]
    show ((n + 1 : Nat) : Int) + -1 = n
    omega
  prefixes := by
    intro cs hcs
    rw [String.toList_append] at hcs
    rcases List.prefix_concat_iff.1 hcs with rfl | h
    · rw [balance_append hs.complete, hs.balance]
      show 0 ≤ ((n + 1 : Nat) : Int) + -1
      omega
    · exact hs.prefixes cs h
  complete := by
    rw [String.toList_append, endsOpen_append hs.complete]
    rfl

/-- It is enough to look at the beginnings of each length. -/
theorem nested_iff : Nested n s ↔ balance s.toList = n ∧ endsOpen s.toList = false ∧
    ∀ k < s.toList.length + 1, 0 ≤ balance (s.toList.take k) := by
  constructor
  · exact fun h => ⟨h.balance, h.complete, fun k _ => h.prefixes _ (List.take_prefix k _)⟩
  · rintro ⟨hbalance, hcomplete, htake⟩
    refine ⟨hbalance, fun cs hcs => ?_, hcomplete⟩
    rw [List.prefix_iff_eq_take.1 hcs]
    exact htake cs.length (Nat.lt_succ_of_le hcs.length_le)

instance (n : Nat) (s : String) : Decidable (Nested n s) := decidable_of_iff _ nested_iff.symm

/-! ## Texts without parentheses -/

/-- Whether a character is neither a parenthesis nor a backslash. -/
def isPlainChar (c : Char) : Bool := c != '(' && c != ')' && c != '\\'

/-- Whether a text has neither parentheses nor backslashes. -/
def isPlainText (s : String) : Bool := s.toList.all isPlainChar

theorem isPlainText_append (hs : isPlainText s = true) (ht : isPlainText t = true) :
    isPlainText (s ++ t) = true := by
  rw [isPlainText, String.toList_append, List.all_append, Bool.and_eq_true]
  exact ⟨hs, ht⟩

theorem ne_backslash_of_isPlainChar {c : Char} (h : isPlainChar c = true) : c ≠ '\\' := by
  rintro rfl
  exact absurd h (by decide)

theorem bracket_of_isPlainChar {c : Char} (h : isPlainChar c = true) : bracket c = 0 := by
  simp only [isPlainChar, Bool.and_eq_true, bne_iff_ne] at h
  rw [bracket, if_neg h.1.1, if_neg h.1.2]

theorem balance_plain {cs : List Char} (h : ∀ c ∈ cs, isPlainChar c = true) : balance cs = 0 := by
  induction cs with
  | nil => rfl
  | cons c cs ih =>
    rw [List.forall_mem_cons] at h
    rw [balance_cons (ne_backslash_of_isPlainChar h.1), bracket_of_isPlainChar h.1, ih h.2]
    rfl

theorem endsOpen_plain {cs : List Char} (h : ∀ c ∈ cs, isPlainChar c = true) :
    endsOpen cs = false := by
  induction cs with
  | nil => rfl
  | cons c cs ih =>
    rw [List.forall_mem_cons] at h
    have hc : endsOpen [c] = false := by simpa [endsOpen] using ne_backslash_of_isPlainChar h.1
    rw [← List.singleton_append, endsOpen_append hc, ih h.2]

theorem nested_plain (h : isPlainText s = true) : Nested 0 s where
  balance := balance_plain (List.all_eq_true.1 h)
  prefixes _ hcs :=
    Int.le_of_eq (balance_plain fun c hc => List.all_eq_true.1 h c (hcs.subset hc)).symm
  complete := endsOpen_plain (List.all_eq_true.1 h)

/-- Characters of a kind that has neither parentheses nor the backslash in it. -/
theorem isPlainChar_of_kind {p : Char → Bool} (hp : ['(', ')', '\\'].all (fun d => !p d) = true)
    {c : Char} (h : p c = true) : isPlainChar c = true := by
  have hne : ∀ d ∈ ['(', ')', '\\'], c ≠ d := by
    rintro d hd rfl
    have hd := List.all_eq_true.1 hp c hd
    rw [h] at hd
    cases hd
  simpa [isPlainChar, and_assoc] using hne

theorem isPlainChar_of_isBlank {c : Char} (h : isBlank c = true) : isPlainChar c = true :=
  isPlainChar_of_kind (by decide) h

theorem nested_blank (h : ∀ c ∈ s.toList, isBlank c = true) : Nested 0 s :=
  nested_plain (List.all_eq_true.2 fun c hc => isPlainChar_of_isBlank (h c hc))

theorem isPlainText_of_isName (h : isName s = true) : isPlainText s = true := by
  rw [isName] at h
  rw [isPlainText, List.all_eq_true]
  cases hs : s.toList with
  | nil => exact fun _ hc => absurd hc List.not_mem_nil
  | cons c cs =>
    rw [hs, isNameChars, Bool.and_eq_true, Bool.and_eq_true] at h
    refine List.forall_mem_cons.2 ⟨isPlainChar_of_kind (by decide) h.1.1, fun d hd => ?_⟩
    exact isPlainChar_of_kind (by decide) (List.all_eq_true.1 h.1.2 d hd)

/-! ## Trimming -/

/-- White space at the end counts nothing, also where its first character is escaped. -/
theorem balance_append_blank {blanks : List Char} (h : ∀ c ∈ blanks, isBlank c = true)
    (cs : List Char) : balance (cs ++ blanks) = balance cs := by
  have hplain : ∀ c ∈ blanks, isPlainChar c = true := fun c hc => isPlainChar_of_isBlank (h c hc)
  fun_induction balance cs with
  | case1 => rw [List.nil_append, balance_plain hplain]
  | case2 c =>
    cases blanks with
    | nil => rfl
    | cons b bs =>
      by_cases hc : c = '\\'
      · rw [hc, List.singleton_append, balance, if_pos rfl,
          balance_plain (List.forall_mem_cons.1 hplain).2]
        rfl
      · rw [List.singleton_append, balance_cons hc, balance_plain hplain, Int.add_zero]
  | case3 b rest ih => rw [List.cons_append, List.cons_append, balance, if_pos rfl, ih]
  | case4 a b rest ha ih => rw [List.cons_append, balance_cons ha, ih]

/-- A text is what trimming leaves of it, between white space. -/
theorem exists_blanks_trim (s : String) : ∃ front back : List Char,
    s.toList = front ++ ((trim s).toList ++ back) ∧ (∀ c ∈ front, isBlank c = true) ∧
      ∀ c ∈ back, isBlank c = true := by
  have hblank : ∀ cs : List Char, ∀ c ∈ cs.takeWhile isBlank, isBlank c = true := fun cs =>
    List.all_eq_true.1 List.all_takeWhile
  refine ⟨s.toList.takeWhile isBlank, ((trimStart s.toList).reverse.takeWhile isBlank).reverse, ?_,
    hblank _, fun c hc => hblank _ c (List.mem_reverse.1 hc)⟩
  have hback : trimChars s.toList ++ ((trimStart s.toList).reverse.takeWhile isBlank).reverse =
      trimStart s.toList := by
    have h : (trimStart s.toList).reverse.takeWhile isBlank ++
        trimStart (trimStart s.toList).reverse = (trimStart s.toList).reverse :=
      List.takeWhile_append_dropWhile
    rw [trimChars, ← List.reverse_append, h, List.reverse_reverse]
  rw [trim, String.toList_ofList, hback, trimStart, List.takeWhile_append_dropWhile]

/-- Trimming keeps a text balanced. -/
theorem balanced_trim (h : Nested 0 s) : Balanced (trim s) := by
  obtain ⟨front, back, hs, hfront, hback⟩ := exists_blanks_trim s
  have hplain : ∀ c ∈ front, isPlainChar c = true := fun c hc =>
    isPlainChar_of_isBlank (hfront c hc)
  have hskip : ∀ cs, balance (front ++ cs) = balance cs := fun cs => by
    rw [balance_append (endsOpen_plain hplain), balance_plain hplain, Int.zero_add]
  refine ⟨?_, fun cs hcs => ?_⟩
  · rw [← balance_append_blank hback, ← hskip, ← hs, h.balance]
    rfl
  · rw [← hskip]
    refine h.prefixes _ ?_
    rw [hs]
    exact (List.prefix_append_right_inj front).2 (List.prefix_append_of_prefix hcs)

end AudienceFilter.Text
