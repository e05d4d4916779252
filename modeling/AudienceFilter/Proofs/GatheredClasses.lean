import AudienceFilter.Proofs.ClassMerging

/-!
# Gathered classes

Merging a class moves its members together: the later ones go directly behind the first, and
everything else stays where it is (`gather`). If a class stays as it is only where it has a single
member, then merging replaces the blocks of the gathered list one by one.

* `flatten_gather_perm`: gathering loses and repeats nothing;
* `heads_gather_sublist`, `sublist_of_mem_gather`: blocks stand in the order of their first members,
  and each keeps the order of its members;
* `mem_gather`, `gather_pairwise`: a block is a whole class, or one element without a key;
* `merge_eq_gather`: merging, block by block.
-/

namespace AudienceFilter.Classes

variable {κ α ε : Type} [DecidableEq κ]

/-- The elements with a key, in their order. -/
def withKey (key : α → Option κ) (k : κ) (xs : List α) : List α :=
  xs.filter fun b => key b = some k

/-- The elements without a key, or with another one, in their order. -/
def withoutKey (key : α → Option κ) (k : κ) (xs : List α) : List α :=
  xs.filter fun b => key b ≠ some k

/-- The list with the later members of each class moved directly behind its first member, as the
list of its blocks. An element without a key is a block of its own. -/
def gather (key : α → Option κ) : List α → List (List α)
  | [] => []
  | a :: rest =>
    match key a with
    | none => [a] :: gather key rest
    | some k => (a :: withKey key k rest) :: gather key (withoutKey key k rest)
termination_by xs => xs.length
decreasing_by
  · exact Nat.lt_succ_self _
  · exact Nat.lt_succ_of_le (List.length_filter_le _ _)

variable {key : α → Option κ} {xs : List α}

theorem mem_withKey {k : κ} {a : α} : a ∈ withKey key k xs ↔ a ∈ xs ∧ key a = some k := by
  simp [withKey]

theorem mem_withoutKey {k : κ} {a : α} : a ∈ withoutKey key k xs ↔ a ∈ xs ∧ key a ≠ some k := by
  simp [withoutKey]

theorem withKey_withoutKey {k k' : κ} (h : k ≠ k') :
    withKey key k' (withoutKey key k xs) = withKey key k' xs := by
  rw [withKey, withoutKey, List.filter_filter, withKey]
  refine List.filter_congr fun b _ => ?_
  by_cases hb : key b = some k' <;> simp [hb, h.symm]

theorem flatten_gather_perm (key : α → Option κ) (xs : List α) :
    (gather key xs).flatten.Perm xs := by
  fun_induction gather key xs with
  | case1 => exact .nil
  | case2 a rest hk ih => exact ih.cons a
  | case3 a rest k hk ih =>
    have hsplit : (withKey key k rest ++ withoutKey key k rest).Perm rest := by
      simpa [withKey, withoutKey] using
        List.filter_append_perm (fun b => decide (key b = some k)) rest
    rw [List.flatten_cons, List.cons_append]
    exact ((ih.append_left _).trans hsplit).cons a

/-- The blocks stand in the order of their first members. -/
theorem heads_gather_sublist (key : α → Option κ) (xs : List α) :
    ((gather key xs).filterMap List.head?).Sublist xs := by
  fun_induction gather key xs with
  | case1 => exact .slnil
  | case2 a rest hk ih => exact ih.cons_cons a
  | case3 a rest k hk ih => exact (ih.trans List.filter_sublist).cons_cons a

/-- A block is one element without a key, or all members of a class in their order. -/
theorem mem_gather {block : List α} (h : block ∈ gather key xs) :
    (∃ a ∈ xs, key a = none ∧ block = [a]) ∨ ∃ k, block ≠ [] ∧ block = withKey key k xs := by
  fun_induction gather key xs with
  | case1 => exact absurd h List.not_mem_nil
  | case2 a rest hk ih =>
    rcases List.mem_cons.1 h with rfl | h
    · exact .inl ⟨a, List.mem_cons_self, hk, rfl⟩
    · refine (ih h).imp ?_ ?_
      · rintro ⟨b, hb, hbk, rfl⟩
        exact ⟨b, List.mem_cons_of_mem a hb, hbk, rfl⟩
      · rintro ⟨k, hne, hblock⟩
        exact ⟨k, hne, by simpa [withKey, hk] using hblock⟩
  | case3 a rest k hk ih =>
    rcases List.mem_cons.1 h with rfl | h
    · exact .inr ⟨k, List.cons_ne_nil _ _, by simp [withKey, hk]⟩
    · refine (ih h).imp ?_ ?_
      · rintro ⟨b, hb, hbk, rfl⟩
        exact ⟨b, List.mem_cons_of_mem a (mem_withoutKey.1 hb).1, hbk, rfl⟩
      · rintro ⟨k', hne, hblock⟩
        -- The class of `a` is taken out of the rest, so that this one is another.
        have hne' : k ≠ k' := by
          rintro rfl
          obtain ⟨b, hb⟩ := List.exists_mem_of_ne_nil block hne
          rw [hblock, mem_withKey, mem_withoutKey] at hb
          exact hb.1.2 hb.2
        refine ⟨k', hne, ?_⟩
        rw [hblock, withKey_withoutKey hne']
        simp [withKey, hk, hne']

theorem sublist_of_mem_gather {block : List α} (h : block ∈ gather key xs) :
    block.Sublist xs := by
  rcases mem_gather h with ⟨a, ha, -, rfl⟩ | ⟨k, -, hblock⟩
  · exact List.singleton_sublist.2 ha
  · exact hblock ▸ List.filter_sublist

/-- No class is spread over two blocks. -/
theorem gather_pairwise (key : α → Option κ) (xs : List α) :
    (gather key xs).Pairwise fun block block' =>
      ∀ a ∈ block, ∀ b ∈ block', ∀ k, key a = some k → key b ≠ some k := by
  fun_induction gather key xs with
  | case1 => exact .nil
  | case2 a rest hk ih =>
    refine .cons (fun block' _ b hb _ _ k hbk => ?_) ih
    rw [List.mem_singleton.1 hb, hk] at hbk
    cases hbk
  | case3 a rest k hk ih =>
    refine .cons (fun block' hblock b hb c hc k' hbk hck => ?_) ih
    have hb : key b = some k := by
      rcases List.mem_cons.1 hb with rfl | hb
      · exact hk
      · exact (mem_withKey.1 hb).2
    have hc := mem_withoutKey.1 ((sublist_of_mem_gather hblock).subset hc)
    exact hc.2 (hck.trans (hbk.symm.trans hb))

theorem eq_of_pairwise {R : α → α → Prop} (h : xs.Pairwise R) {x y : α} (hx : x ∈ xs)
    (hy : y ∈ xs) (hxy : ¬R x y) (hyx : ¬R y x) : x = y := by
  induction h with
  | nil => cases hx
  | cons hz _ ih =>
    rcases List.mem_cons.1 hx with rfl | hx'
    · rcases List.mem_cons.1 hy with rfl | hy'
      · rfl
      · exact absurd (hz y hy') hxy
    · rcases List.mem_cons.1 hy with rfl | hy'
      · exact absurd (hz x hx') hyx
      · exact ih hx' hy'

/-! ## Merging -/

theorem withoutKey_cons (k : κ) (a : α) (rest : List α) : withoutKey key k (a :: rest) =
    if key a = some k then withoutKey key k rest else a :: withoutKey key k rest := by
  by_cases ha : key a = some k <;> simp [withoutKey, ha]

/-- Members of a class that was replaced are left out. -/
theorem collapse_seen {replacement? : κ → Option α} {k : κ} (hk : (replacement? k).isSome)
    (seen : List κ) (xs : List α) :
    collapse replacement? (seen ++ [k]) (xs.map fun x => (key x, x)) =
      collapse replacement? seen ((withoutKey key k xs).map fun x => (key x, x)) := by
  induction xs generalizing seen with
  | nil => rfl
  | cons a rest ih =>
    rw [withoutKey_cons, List.map_cons]
    cases ha : key a with
    | none => simp [ha, collapse, ih]
    | some k' =>
      by_cases hkk : k' = k
      · obtain ⟨r, hr⟩ := Option.isSome_iff_exists.1 hk
        simp [collapse, hkk, hr, ih]
      · have hcons := ih (k' :: seen)
        rw [List.cons_append] at hcons
        cases hr : replacement? k' <;> simp [ha, collapse, hkk, hr, ih, hcons]

/-- Collapsing replaces the blocks of the gathered list one by one. -/
theorem collapse_gather {replacement? : κ → Option α}
    (hone : ∀ k, replacement? k = none → (withKey key k xs).length ≤ 1) :
    (collapse replacement? [] (xs.map fun x => (key x, x))).length = (gather key xs).length ∧
      ∀ p ∈ (gather key xs).zip (collapse replacement? [] (xs.map fun x => (key x, x))),
        p.1 = [p.2] ∨ ∃ k, replacement? k = some p.2 ∧ ∀ a ∈ p.1, key a = some k := by
  fun_induction gather key xs with
  | case1 => exact ⟨rfl, fun _ hp => absurd hp List.not_mem_nil⟩
  | case2 a rest hk ih =>
    obtain ⟨hlen, hall⟩ := ih fun k hr => by simpa [withKey, hk] using hone k hr
    rw [List.map_cons, hk, collapse]
    exact ⟨congrArg (· + 1) hlen, List.forall_mem_cons.2 ⟨.inl rfl, hall⟩⟩
  | case3 a rest k hk ih =>
    have hrest : ∀ k', replacement? k' = none →
        (withKey key k' (withoutKey key k rest)).length ≤ 1 := by
      intro k' hr
      refine Nat.le_trans (List.Sublist.length_le ?_) (hone k' hr)
      exact (List.filter_sublist.trans (List.sublist_cons_self a rest)).filter _
    obtain ⟨hlen, hall⟩ := ih hrest
    rw [List.map_cons, hk]
    cases hr : replacement? k with
    | none =>
      -- The class has no other member, so that nothing moves.
      have hnone : withKey key k rest = [] := by
        have hle := hone k hr
        rw [withKey, List.filter_cons, if_pos (by simpa using hk), List.length_cons] at hle
        exact List.eq_nil_of_length_eq_zero (by rw [withKey]; omega)
      have hsame : withoutKey key k rest = rest := by
        refine List.filter_eq_self.2 fun b hb => decide_eq_true fun hbk => ?_
        exact absurd (mem_withKey.2 ⟨hb, hbk⟩) (hnone ▸ List.not_mem_nil)
      rw [hsame] at hlen hall ⊢
      rw [collapse, hr, hnone]
      exact ⟨congrArg (· + 1) hlen, List.forall_mem_cons.2 ⟨.inl rfl, hall⟩⟩
    | some r =>
      have hseen : collapse replacement? [k] (rest.map fun x => (key x, x)) =
          collapse replacement? [] ((withoutKey key k rest).map fun x => (key x, x)) :=
        collapse_seen (hr ▸ rfl) [] rest
      rw [collapse, hr]
      simp only [List.not_mem_nil, if_false, hseen]
      refine ⟨congrArg (· + 1) hlen, List.forall_mem_cons.2 ⟨.inr ⟨k, hr, ?_⟩, hall⟩⟩
      exact List.forall_mem_cons.2 ⟨hk, fun b hb => (mem_withKey.1 hb).2⟩

/-- If only classes of one member stay as they are, merging replaces the blocks of the gathered
list one by one. -/
theorem merge_eq_gather {f : κ → List α → Except ε (Option α)} {out : List α}
    (h : merge f (xs.map fun x => (key x, x)) = .ok out)
    (hone : ∀ k, f k (withKey key k xs) = .ok none → (withKey key k xs).length ≤ 1) :
    out.length = (gather key xs).length ∧ ∀ p ∈ (gather key xs).zip out,
      p.1 = [p.2] ∨ ∃ k, (∀ a ∈ p.1, key a = some k) ∧ f k p.1 = .ok (some p.2) := by
  obtain ⟨replacement?, hr, rfl⟩ := merge_eq_collapse h
  have hclass : ∀ k a, a ∈ xs → key a = some k → f k (withKey key k xs) = .ok (replacement? k) := by
    intro k a ha hk
    rw [withKey, ← members_map]
    exact hr k (mem_keys.2 ⟨a, List.mem_map.2 ⟨a, ha, by rw [hk]⟩⟩)
  have hkept : ∀ k, replacement? k = none → (withKey key k xs).length ≤ 1 := by
    intro k hnone
    by_cases hnil : withKey key k xs = []
    · rw [hnil]
      exact Nat.zero_le 1
    · obtain ⟨a, ha⟩ := List.exists_mem_of_ne_nil _ hnil
      obtain ⟨ha, hk⟩ := mem_withKey.1 ha
      exact hone k (hnone ▸ hclass k a ha hk)
  obtain ⟨hlen, hall⟩ := collapse_gather hkept
  refine ⟨hlen, fun p hp => (hall p hp).imp_right ?_⟩
  rintro ⟨k, hrk, hpk⟩
  refine ⟨k, hpk, ?_⟩
  -- A block of a class is the whole class.
  rcases mem_gather (List.of_mem_zip hp).1 with ⟨a, -, hnone, hblock⟩ | ⟨k', hne, hblock⟩
  · have hk := hpk a (hblock ▸ List.mem_singleton_self a)
    rw [hnone] at hk
    cases hk
  · obtain ⟨a, ha⟩ := List.exists_mem_of_ne_nil _ hne
    have hk := hpk a ha
    rw [hblock, mem_withKey] at ha
    cases hk.symm.trans ha.2
    rw [hblock, hclass k a ha.1 hk, hrk]

end AudienceFilter.Classes
