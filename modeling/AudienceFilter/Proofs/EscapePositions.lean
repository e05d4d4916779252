import AudienceFilter.Proofs.EscapedValues

/-!
# Escaping, position by position

Whether a character is escaped depends on the backslashes in front of it: it is if the character
directly in front is a backslash that is not itself escaped. This is said here for each position of
a text on its own, apart from any reading from left to right, and agrees with such a reading:

* `escapedAt_append`: a text that leaves nothing to be escaped does not change what follows it;
* `isEscapedChars_iff`: an escaped text is one that is escaped at every position that needs it;
* `dropEscapes_eq_unescapeChars`: unescaping drops the escaping backslashes and nothing else;
* `escape_lossless`: what follows for the escaped form of a value.
-/

namespace AudienceFilter.Text

/-- Whether the character at a position is escaped: directly in front of it stands a backslash that
is not itself escaped. -/
def escapedAt (cs : List Char) : Nat → Bool
  | 0 => false
  | i + 1 => cs[i]? == some '\\' && !escapedAt cs i

/-- Whether an escaping backslash stands at a position: one that is not itself escaped. -/
def escapesAt (cs : List Char) (i : Nat) : Bool := cs[i]? == some '\\' && !escapedAt cs i

/-- Whether every character of the query grammar and all white space is escaped, except for the
backslashes that escape a character of the text. -/
def EscapedThroughout (cs : List Char) : Prop :=
  ∀ i c, cs[i]? = some c → c ∈ grammarChars ∨ isBlank c = true →
    escapedAt cs i = true ∨ escapesAt cs i = true ∧ i + 1 < cs.length

/-- The character at a position, unless it is an escaping backslash. -/
def keptAt (cs : List Char) (i : Nat) : Option Char := if escapesAt cs i then none else cs[i]?

/-- The characters without the escaping backslashes. -/
def dropEscapes (cs : List Char) : List Char :=
  ((List.range cs.length).map (keptAt cs)).filterMap id

theorem needsEscape_iff {c : Char} :
    needsEscape c = true ↔ c ∈ grammarChars ∨ isBlank c = true := by
  rw [needsEscape, Bool.or_eq_true, List.contains_iff_mem]

theorem needsEscape_eq_false_iff {c : Char} :
    needsEscape c = false ↔ c ∉ grammarChars ∧ isBlank c = false := by
  rw [← Bool.not_eq_true, needsEscape_iff, not_or, Bool.not_eq_true]

/-! ## Texts behind each other -/

/-- Only the characters in front of a position decide. -/
theorem escapedAt_append_left {cs : List Char} (ds : List Char) {i : Nat} (h : i ≤ cs.length) :
    escapedAt (cs ++ ds) i = escapedAt cs i := by
  induction i with
  | zero => rfl
  | succ i ih =>
    rw [escapedAt, escapedAt, List.getElem?_append_left h, ih (Nat.le_of_succ_le h)]

theorem escapesAt_append_left {cs : List Char} (ds : List Char) {i : Nat} (h : i < cs.length) :
    escapesAt (cs ++ ds) i = escapesAt cs i := by
  rw [escapesAt, escapesAt, List.getElem?_append_left h, escapedAt_append_left ds (Nat.le_of_lt h)]

section Behind

variable {cs : List Char} (h : escapedAt cs cs.length = false) (ds : List Char)
include h

/-- Behind a text whose last character escapes nothing the backslashes count anew. -/
theorem escapedAt_append (i : Nat) : escapedAt (cs ++ ds) (cs.length + i) = escapedAt ds i := by
  induction i with
  | zero => rw [Nat.add_zero, escapedAt_append_left ds (Nat.le_refl _), h, escapedAt]
  | succ i ih =>
    rw [← Nat.add_assoc, escapedAt, escapedAt, ih, List.getElem?_append_right (Nat.le_add_right ..),
      Nat.add_sub_cancel_left]

theorem escapesAt_append (i : Nat) : escapesAt (cs ++ ds) (cs.length + i) = escapesAt ds i := by
  rw [escapesAt, escapesAt, escapedAt_append h, List.getElem?_append_right (Nat.le_add_right ..),
    Nat.add_sub_cancel_left]

theorem dropEscapes_append : dropEscapes (cs ++ ds) = dropEscapes cs ++ dropEscapes ds := by
  have hfront : ∀ i ∈ List.range cs.length, keptAt (cs ++ ds) i = keptAt cs i := by
    intro i hi
    have hlt : i < cs.length := List.mem_range.1 hi
    rw [keptAt, keptAt, escapesAt_append_left ds hlt, List.getElem?_append_left hlt]
  have hbehind : ∀ i ∈ List.range ds.length, keptAt (cs ++ ds) (cs.length + i) = keptAt ds i := by
    intro i _
    rw [keptAt, keptAt, escapesAt_append h, List.getElem?_append_right (Nat.le_add_right ..),
      Nat.add_sub_cancel_left]
  simp only [dropEscapes, List.length_append, List.range_add, List.map_append,
    List.map_map, List.filterMap_append]
  congr 2
  · exact List.map_congr_left hfront
  · exact List.map_congr_left hbehind

/-- A text is escaped if its two parts are. -/
theorem escapedThroughout_append :
    EscapedThroughout (cs ++ ds) ↔ (∀ i c, cs[i]? = some c → needsEscape c = true →
      escapedAt cs i = true ∨ escapesAt cs i = true ∧ i + 1 < cs.length + ds.length) ∧
        EscapedThroughout ds := by
  constructor
  · intro hall
    refine ⟨fun i c hc hneeds => ?_, fun i c hc hneeds => ?_⟩
    · have hlt : i < cs.length := (List.getElem?_eq_some_iff.1 hc).1
      have hi := hall i c ((List.getElem?_append_left hlt).trans hc) (needsEscape_iff.1 hneeds)
      rwa [escapedAt_append_left ds (Nat.le_of_lt hlt), escapesAt_append_left ds hlt,
        List.length_append] at hi
    · have hget : (cs ++ ds)[cs.length + i]? = some c := by
        rw [List.getElem?_append_right (Nat.le_add_right ..), Nat.add_sub_cancel_left, hc]
      have hi := hall _ c hget hneeds
      rw [escapedAt_append h, escapesAt_append h, List.length_append] at hi
      exact hi.imp_right fun hescapes => ⟨hescapes.1, by omega⟩
  · rintro ⟨hfront, hbehind⟩ i c hc hneeds
    by_cases hlt : i < cs.length
    · rw [List.getElem?_append_left hlt] at hc
      rw [escapedAt_append_left ds (Nat.le_of_lt hlt), escapesAt_append_left ds hlt,
        List.length_append]
      exact hfront i c hc (needsEscape_iff.2 hneeds)
    · obtain ⟨k, rfl⟩ := Nat.exists_eq_add_of_le (Nat.le_of_not_lt hlt)
      rw [List.getElem?_append_right (Nat.le_add_right ..), Nat.add_sub_cancel_left] at hc
      rw [escapedAt_append h, escapesAt_append h, List.length_append]
      exact (hbehind k c hc hneeds).imp_right fun hescapes => ⟨hescapes.1, by omega⟩

end Behind

/-! ## Reading from left to right -/

theorem escapedAt_single {c : Char} (h : c ≠ '\\') : escapedAt [c] [c].length = false := by
  simp [escapedAt, h]

theorem escapedAt_pair (c : Char) : escapedAt ['\\', c] ['\\', c].length = false := by
  simp [escapedAt]

theorem escapedThroughout_nil : EscapedThroughout [] := fun _ _ hc => absurd hc (by simp)

/-- Nothing in front escapes the first character. -/
theorem escapedThroughout_head {c : Char} {cs : List Char} (h : EscapedThroughout (c :: cs))
    (hc : c ≠ '\\' ∨ cs = []) : needsEscape c = false := by
  rw [← Bool.not_eq_true]
  intro hneeds
  rcases h 0 c rfl (needsEscape_iff.1 hneeds) with hescaped | ⟨hescapes, hlen⟩
  · cases hescaped
  · rcases hc with hc | rfl
    · simp [escapesAt, hc] at hescapes
    · simp at hlen

theorem escapedThroughout_cons {c : Char} (hc : c ≠ '\\') (cs : List Char) :
    EscapedThroughout (c :: cs) ↔ needsEscape c = false ∧ EscapedThroughout cs := by
  have happend := escapedThroughout_append (escapedAt_single hc) cs
  constructor
  · exact fun h => ⟨escapedThroughout_head h (.inl hc), (happend.1 h).2⟩
  rintro ⟨hplain, hrest⟩
  refine happend.2 ⟨fun i d hd hneeds => ?_, hrest⟩
  obtain ⟨-, rfl⟩ : i = 0 ∧ c = d := by simpa [List.getElem?_singleton] using hd
  rw [hplain] at hneeds
  cases hneeds

/-- A backslash and the character that it escapes may stand in front of any escaped text. -/
theorem escapedThroughout_pair (c : Char) (cs : List Char) :
    EscapedThroughout ('\\' :: c :: cs) ↔ EscapedThroughout cs := by
  have happend := escapedThroughout_append (escapedAt_pair c) cs
  refine ⟨fun h => (happend.1 h).2, fun h => happend.2 ⟨?_, h⟩⟩
  intro i d hd _
  rcases i with _ | _ | i
  · exact .inr ⟨rfl, Nat.lt_add_right cs.length (by decide : 1 < 2)⟩
  · exact .inl rfl
  · simp at hd

/-- A text is escaped if and only if every position that needs it is. -/
theorem isEscapedChars_iff (cs : List Char) : isEscapedChars cs = true ↔ EscapedThroughout cs := by
  -- The reading takes a character or an escaped pair at a time. Neither leaves the next character
  -- escaped, so the positions behind it can be counted from there.
  fun_induction isEscapedChars cs with
  | case1 => exact iff_of_true rfl escapedThroughout_nil
  | case2 c =>
    rw [Bool.not_eq_true']
    refine ⟨fun h => (escapedThroughout_cons (ne_backslash h) []).2 ⟨h, escapedThroughout_nil⟩, ?_⟩
    exact fun h => escapedThroughout_head h (.inr rfl)
  | case3 b rest ih => rw [ih, escapedThroughout_pair]
  | case4 a b rest ha ih =>
    rw [Bool.and_eq_true, Bool.not_eq_true', ih, escapedThroughout_cons ha]

theorem dropEscapes_cons {c : Char} (hc : c ≠ '\\') (cs : List Char) :
    dropEscapes (c :: cs) = c :: dropEscapes cs := by
  have hsingle : dropEscapes [c] = [c] := by
    simp [dropEscapes, keptAt, escapesAt, hc]
  have happend := dropEscapes_append (escapedAt_single hc) cs
  rwa [hsingle, List.singleton_append, List.singleton_append] at happend

theorem dropEscapes_pair (c : Char) (cs : List Char) :
    dropEscapes ('\\' :: c :: cs) = c :: dropEscapes cs := by
  have hpair : dropEscapes ['\\', c] = [c] := by
    simp [dropEscapes, keptAt, escapesAt, escapedAt, List.range_succ]
  have happend := dropEscapes_append (escapedAt_pair c) cs
  rwa [hpair, List.singleton_append] at happend

/-- Unescaping an escaped text drops the escaping backslashes and nothing else. -/
theorem dropEscapes_eq_unescapeChars {cs : List Char} (h : isEscapedChars cs = true) :
    dropEscapes cs = unescapeChars cs := by
  fun_induction isEscapedChars cs with
  | case1 => rfl
  | case2 c =>
    rw [Bool.not_eq_true'] at h
    rw [dropEscapes_cons (ne_backslash h)]
    rfl
  | case3 b rest ih => rw [dropEscapes_pair, unescapeChars, if_pos rfl, ih h]
  | case4 a b rest ha ih =>
    rw [Bool.and_eq_true] at h
    rw [dropEscapes_cons ha, unescapeChars, if_neg ha, ih h.2]

/-! ## Escaped values -/

/-- Escaping adds one backslash for each character that takes one. -/
theorem length_escapeChars (cs : List Char) :
    (escapeChars cs).length = cs.length + cs.countP needsEscape := by
  induction cs with
  | nil => rfl
  | cons c cs ih =>
    rw [escapeChars_cons, escapeChar, List.length_append, ih, List.countP_cons, List.length_cons]
    split <;> simp <;> omega

theorem escapeChars_eq_self_iff (cs : List Char) :
    escapeChars cs = cs ↔ ∀ c ∈ cs, needsEscape c = false := by
  constructor
  · intro h
    have hcount : cs.countP needsEscape = 0 := by
      have hlen := length_escapeChars cs
      rw [h] at hlen
      omega
    exact fun c hc => Bool.not_eq_true _ ▸ List.countP_eq_zero.1 hcount c hc
  · intro h
    induction cs with
    | nil => rfl
    | cons c cs ih =>
      rw [List.forall_mem_cons] at h
      rw [escapeChars_cons, escapeChar, h.1, ih h.2]
      rfl

theorem escape_eq_self_iff (v : String) : escape v = v ↔ isPlainValue v = true := by
  rw [escape, ← String.toList_inj, String.toList_ofList, escapeChars_eq_self_iff, isPlainValue,
    List.all_eq_true]
  simp only [Bool.not_eq_true']

/-- Escaping loses nothing and leaves nothing out: in the escaped form of a value every character of
the query grammar and all white space is escaped, and dropping the escaping backslashes gives the
value back. The escaped forms of two values stand behind each other as the values do, and a value is
its own escaped form exactly if none of its characters takes a backslash. -/
theorem escape_lossless :
    (∀ v : String, EscapedThroughout (escape v).toList ∧
      dropEscapes (escape v).toList = v.toList) ∧
    Function.Injective escape ∧
    (∀ v w : String, escape (v ++ w) = escape v ++ escape w) ∧
    ∀ v : String, (escape v = v ↔ ∀ c ∈ v.toList, c ∉ grammarChars ∧ isBlank c = false) ∧
      (escape v = v ↔ isPlainValue v = true) := by
  have hdrop : ∀ v : String, dropEscapes (escape v).toList = v.toList := by
    intro v
    obtain ⟨hescaped, hvalue⟩ := carries_escape v
    rw [dropEscapes_eq_unescapeChars hescaped, ← String.toList_ofList (l := unescapeChars _)]
    exact congrArg String.toList hvalue
  refine ⟨fun v => ⟨(isEscapedChars_iff _).1 (carries_escape v).1, hdrop v⟩, ?_, ?_, ?_⟩
  · intro v w h
    rw [← String.toList_inj, ← hdrop v, ← hdrop w, h]
  · intro v w
    simp only [escape, String.toList_append, escapeChars_append, String.ofList_append]
  · intro v
    refine ⟨?_, escape_eq_self_iff v⟩
    simp only [escape_eq_self_iff, isPlainValue, List.all_eq_true, Bool.not_eq_true',
      needsEscape_eq_false_iff]

end AudienceFilter.Text
