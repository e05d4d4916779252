import AudienceFilter.Classes
import AudienceFilter.Proofs.Results
import Mathlib.Algebra.GroupWithZero.Nat

/-!
# What merging classes keeps

`Classes.merge` puts one element in the place of a class. What holds of an element exactly if it
holds of all members of the class that it stands for, holds of all elements after merging exactly
if it did before:

* `mem_merge`: an element was there before or stands for a class;
* `forall_merge`: properties of all elements;
* `sum_merge_le`: no weight is gained;
* `filter_merge`, `merge_settled`: the classes that merging leaves alone;
* `yields_merge`: merging meets no fault if the replacements are made without.
-/

namespace AudienceFilter

/-! ## Weights -/

section Weight

variable {α ε : Type} {f : α → Except ε α} {w : α → Nat} {xs out : List α}

/-- Elements that keep their weight each keep it together. -/
theorem sum_of_mapM_eq_ok (hm : xs.mapM f = .ok out)
    (hw : ∀ x ∈ xs, ∀ y, f x = .ok y → w y = w x) : (out.map w).sum = (xs.map w).sum :=
  congrArg List.sum (map_of_mapM_eq_ok hm hw)

/-- Elements that get no heavier each get no heavier together, and keep their weight if they do
together. -/
theorem sum_of_mapM_le (hm : xs.mapM f = .ok out)
    (hle : ∀ x ∈ xs, ∀ y, f x = .ok y → w y ≤ w x) :
    (out.map w).sum ≤ (xs.map w).sum ∧ ((out.map w).sum = (xs.map w).sum →
      ∀ x ∈ xs, ∀ y, f x = .ok y → w y = w x) := by
  induction xs generalizing out with
  | nil =>
    rw [List.mapM_nil, pure_eq_ok] at hm
    rw [← hm]
    exact ⟨Nat.le_refl _, fun _ x hx => absurd hx List.not_mem_nil⟩
  | cons x xs ih =>
    obtain ⟨y, ys, hy, hys, rfl⟩ := mapM_cons_eq_ok.1 hm
    rw [List.forall_mem_cons] at hle
    obtain ⟨hsum, heq⟩ := ih hys hle.2
    have hxy := hle.1 y hy
    simp only [List.map_cons, List.sum_cons]
    refine ⟨by omega, fun h => List.forall_mem_cons.2 ⟨fun y' hy' => ?_, heq (by omega)⟩⟩
    rw [hy] at hy'
    cases hy'
    omega

end Weight

namespace Classes

variable {κ α ε : Type}

/-- Elements are kept with the keys that were asked for. -/
theorem mem_keyed {f : α → Except ε (Option κ)} {xs : List α} {keyed : List (Option κ × α)}
    (h : (xs.mapM fun x => (f x).map fun key => (key, x)) = .ok keyed) :
    ∀ p ∈ keyed, p.2 ∈ xs ∧ f p.2 = .ok p.1 := by
  intro p hp
  obtain ⟨x, hx, hk⟩ := mem_of_mapM_eq_ok h hp
  obtain ⟨key, hkey, rfl⟩ := map_eq_ok.1 hk
  exact ⟨hx, hkey⟩

theorem forall_keyed {f : α → Except ε (Option κ)} {xs : List α} {keyed : List (Option κ × α)}
    (h : (xs.mapM fun x => (f x).map fun key => (key, x)) = .ok keyed) {P : α → Prop} :
    (∀ p ∈ keyed, P p.2) ↔ ∀ x ∈ xs, P x := by
  refine ⟨fun hall x hx => ?_, fun hall p hp => hall p.2 (mem_keyed h p hp).1⟩
  obtain ⟨p, hp, hk⟩ := exists_of_mapM_eq_ok h hx
  obtain ⟨key, -, rfl⟩ := map_eq_ok.1 hk
  exact hall _ hp

/-- Elements stay in their order. -/
theorem map_snd_of_keyed {f : α → Except ε (Option κ)} {xs : List α}
    {keyed : List (Option κ × α)}
    (h : (xs.mapM fun x => (f x).map fun key => (key, x)) = .ok keyed) :
    keyed.map Prod.snd = xs := by
  have hmap := map_of_mapM_eq_ok (g := Prod.snd) (h := id) h fun x _ p hp => by
    obtain ⟨key, -, rfl⟩ := map_eq_ok.1 hp
    rfl
  rwa [List.map_id] at hmap

/-- Elements with the keys that were asked for, as a list that is mapped. -/
theorem keyed_eq_map {f : α → Except ε (Option κ)} {xs : List α}
    {keyed : List (Option κ × α)}
    (h : (xs.mapM fun x => (f x).map fun key => (key, x)) = .ok keyed)
    {key : α → Option κ} (hkey : ∀ x ∈ xs, ∀ k?, f x = .ok k? → key x = k?) :
    keyed = xs.map fun x => (key x, x) := by
  rw [← List.map_id keyed]
  refine map_of_mapM_eq_ok h fun x hx p hp => ?_
  obtain ⟨k?, hk, rfl⟩ := map_eq_ok.1 hp
  rw [hkey x hx k? hk]
  rfl

theorem yields_keyed {f : α → Result (Option κ)} {xs : List α}
    (hf : ∀ x ∈ xs, Yields (f x) fun _ => True) :
    Yields (xs.mapM fun x => (f x).map fun key => (key, x)) fun keyed =>
      (xs ≠ [] → keyed ≠ []) ∧ ∀ p ∈ keyed, p.2 ∈ xs ∧ f p.2 = .ok p.1 := by
  refine (yields_mapM (Q := fun _ => True) fun x hx => (hf x hx).map fun _ _ => trivial).mono
    fun keyed hkeyed hlen => ?_
  refine ⟨?_, mem_keyed hkeyed⟩
  rintro hne rfl
  exact hne (List.eq_nil_of_length_eq_zero hlen.1.symm)

variable [DecidableEq κ]

theorem mem_keys {keyed : List (Option κ × α)} {k : κ} :
    k ∈ keys keyed ↔ ∃ a, (some k, a) ∈ keyed := by
  rw [keys, Distinct.mem_ofList, List.mem_filterMap]
  constructor
  · rintro ⟨⟨_, a⟩, ha, rfl⟩
    exact ⟨a, ha⟩
  · rintro ⟨a, ha⟩
    exact ⟨_, ha, rfl⟩

theorem mem_members {keyed : List (Option κ × α)} {k : κ} {a : α} :
    a ∈ members keyed k ↔ (some k, a) ∈ keyed := by
  rw [members, List.mem_filterMap]
  constructor
  · rintro ⟨⟨k', b⟩, hb, h⟩
    simp only [Option.ite_none_right_eq_some, Option.some.injEq] at h
    obtain ⟨rfl, rfl⟩ := h
    exact hb
  · intro h
    exact ⟨_, h, if_pos rfl⟩

/-- What an element is replaced by. -/
def standIn (replacement? : κ → Option α) (p : Option κ × α) : α :=
  (p.1.bind replacement?).getD p.2

/-- Collapsing leaves what the elements are replaced by, apart from classes seen before. -/
theorem mem_collapse {replacement? : κ → Option α} {seen : List κ} {keyed : List (Option κ × α)}
    {x : α} :
    x ∈ collapse replacement? seen keyed ↔ ∃ p ∈ keyed, x = standIn replacement? p ∧
      ∀ k, p.1 = some k → (replacement? k).isSome → k ∉ seen := by
  induction keyed generalizing seen with
  | nil => simp [collapse]
  | cons p rest ih =>
    rcases p with ⟨_ | k, a⟩
    · simp [collapse, ih, standIn]
    · rw [collapse]
      cases hr : replacement? k with
      | none => simp [ih, standIn, hr]
      | some r =>
        by_cases hk : k ∈ seen
        · simp [ih, hk, hr]
        · simp only [hk, if_false, List.mem_cons, ih, not_or, exists_eq_or_imp]
          -- Further members of the class that is replaced here stand for the same element.
          have hs : standIn replacement? (some k, a) = r := by simp [standIn, hr]
          constructor
          · rintro (rfl | ⟨p, hp, hx, hall⟩)
            · refine .inl ⟨hs.symm, ?_⟩
              rintro _ ⟨⟩ _
              exact hk
            · exact .inr ⟨p, hp, hx, fun k' h h' => (hall k' h h').2⟩
          · rintro (⟨hx, -⟩ | ⟨p, hp, hx, hall⟩)
            · exact .inl (hx.trans hs)
            · by_cases hpk : p.1 = some k
              · exact .inl (hx.trans (by simp [standIn, hpk, hr]))
              · refine .inr ⟨p, hp, hx, fun k' h h' => ⟨fun e => hpk (e ▸ h), hall k' h h'⟩⟩

/-- The replacement of a class is what was asked for. -/
theorem lookup_of_mem {f : κ → Except ε (Option α)} {ks : List κ} {made : List (κ × Option α)}
    (h : (ks.mapM fun k => (f k).map fun r => (k, r)) = .ok made) {k : κ} (hk : k ∈ ks) :
    f k = .ok (lookup made k) := by
  have hmade : ∀ e ∈ made, f e.1 = .ok e.2 := by
    intro e he
    obtain ⟨k', -, h'⟩ := mem_of_mapM_eq_ok h he
    obtain ⟨r, hr, rfl⟩ := map_eq_ok.1 h'
    exact hr
  obtain ⟨e, he, h'⟩ := exists_of_mapM_eq_ok h hk
  obtain ⟨r, -, rfl⟩ := map_eq_ok.1 h'
  cases hf : made.find? fun entry => entry.1 = k with
  | none => exact absurd (decide_eq_true rfl) (List.find?_eq_none.1 hf _ he)
  | some e' =>
    have hkey : e'.1 = k := by simpa using List.find?_some hf
    rw [lookup, hf, ← hkey]
    exact hmade e' (List.mem_of_find?_eq_some hf)

theorem merge_eq_collapse {f : κ → List α → Except ε (Option α)} {keyed : List (Option κ × α)}
    {out : List α} (h : merge f keyed = .ok out) :
    ∃ replacement? : κ → Option α,
      (∀ k ∈ keys keyed, f k (members keyed k) = .ok (replacement? k)) ∧
        out = collapse replacement? [] keyed := by
  obtain ⟨made, hm, h⟩ := bind_eq_ok.1 h
  exact ⟨lookup made, fun k hk => lookup_of_mem hm hk, (pure_eq_ok.1 h).symm⟩

theorem merge_eq_ok {f : κ → List α → Except ε (Option α)} {keyed : List (Option κ × α)}
    {out : List α} (h : merge f keyed = .ok out) :
    ∃ replacement? : κ → Option α,
      (∀ k ∈ keys keyed, f k (members keyed k) = .ok (replacement? k)) ∧
        ∀ x, x ∈ out ↔ ∃ p ∈ keyed, x = standIn replacement? p := by
  obtain ⟨replacement?, hr, rfl⟩ := merge_eq_collapse h
  refine ⟨replacement?, hr, fun x => ?_⟩
  rw [mem_collapse]
  simp

/-- An element was there before or stands for a class. -/
theorem mem_merge {f : κ → List α → Except ε (Option α)} {keyed : List (Option κ × α)}
    {out : List α} (h : merge f keyed = .ok out) {x : α} (hx : x ∈ out) :
    (∃ p ∈ keyed, x = p.2) ∨ ∃ k, f k (members keyed k) = .ok (some x) := by
  obtain ⟨replacement?, hr, hout⟩ := merge_eq_ok h
  obtain ⟨⟨k?, a⟩, hp, rfl⟩ := (hout x).1 hx
  cases hk : k?.bind replacement? with
  | none => exact .inl ⟨_, hp, by simp [standIn, hk]⟩
  | some r =>
    obtain ⟨k, rfl, hrk⟩ := Option.bind_eq_some_iff.1 hk
    refine .inr ⟨k, ?_⟩
    rw [hr k (mem_keys.2 ⟨a, hp⟩), standIn, hk, hrk]
    rfl

/-- What a replacement says of the whole class, all elements say after merging as before. -/
theorem forall_merge {f : κ → List α → Except ε (Option α)} {keyed : List (Option κ × α)}
    {out : List α} (h : merge f keyed = .ok out) {P : α → Prop}
    (hP : ∀ k r, f k (members keyed k) = .ok (some r) → (P r ↔ ∀ a ∈ members keyed k, P a)) :
    (∀ x ∈ out, P x) ↔ ∀ p ∈ keyed, P p.2 := by
  obtain ⟨replacement?, hr, hout⟩ := merge_eq_ok h
  -- The replacement of a class, by the key of one of its members.
  have hclass : ∀ k a r, (some k, a) ∈ keyed → replacement? k = some r →
      (P r ↔ ∀ b ∈ members keyed k, P b) := fun k a r hp hrk =>
    hP k r (hrk ▸ hr k (mem_keys.2 ⟨a, hp⟩))
  constructor
  · rintro hall ⟨k?, a⟩ hp
    have hin := hall _ ((hout _).2 ⟨_, hp, rfl⟩)
    cases hk : k?.bind replacement? with
    | none => simpa [standIn, hk] using hin
    | some r =>
      obtain ⟨k, rfl, hrk⟩ := Option.bind_eq_some_iff.1 hk
      rw [standIn, hk] at hin
      exact (hclass k a r hp hrk).1 hin a (mem_members.2 hp)
  · intro hall x hx
    obtain ⟨⟨k?, a⟩, hp, rfl⟩ := (hout x).1 hx
    cases hk : k?.bind replacement? with
    | none => simpa [standIn, hk] using hall _ hp
    | some r =>
      obtain ⟨k, rfl, hrk⟩ := Option.bind_eq_some_iff.1 hk
      rw [standIn, hk]
      exact (hclass k a r hp hrk).2 fun b hb => hall _ (mem_members.1 hb)

/-! ## What merging leaves alone -/

/-- Elements of a kind stay as they are, in their order, if the classes that are replaced have
none of them and are replaced by others. -/
theorem filter_merge {f : κ → List α → Except ε (Option α)} {keyed : List (Option κ × α)}
    {out : List α} {P : α → Bool} (h : merge f keyed = .ok out)
    (hP : ∀ k r, f k (members keyed k) = .ok (some r) →
      P r = false ∧ ∀ a ∈ members keyed k, P a = false) :
    out.filter P = (keyed.map Prod.snd).filter P := by
  have hcollapse : ∀ (replacement? : κ → Option α) (rest : List (Option κ × α)),
      (∀ k a r, (some k, a) ∈ rest → replacement? k = some r → P r = false ∧ P a = false) →
      ∀ seen, (collapse replacement? seen rest).filter P = (rest.map Prod.snd).filter P := by
    intro replacement? rest
    induction rest with
    | nil => exact fun _ _ => rfl
    | cons p rest ih =>
      intro hr seen
      have ih := ih fun k a r hp => hr k a r (List.mem_cons_of_mem p hp)
      rcases p with ⟨_ | k, a⟩
      · simp [collapse, List.filter_cons, ih seen]
      · rw [collapse]
        cases hk : replacement? k with
        | none => simp [List.filter_cons, ih seen]
        | some r =>
          obtain ⟨hPr, hPa⟩ := hr k a r List.mem_cons_self hk
          by_cases hs : k ∈ seen
          · simp [hs, hPa, ih seen]
          · simp [hs, hPa, hPr, ih (k :: seen)]
  obtain ⟨replacement?, hr, rfl⟩ := merge_eq_collapse h
  refine hcollapse replacement? keyed (fun k a r hp hk => ?_) []
  obtain ⟨hPr, hall⟩ := hP k r (hk ▸ hr k (mem_keys.2 ⟨a, hp⟩))
  exact ⟨hPr, hall a (mem_members.2 hp)⟩

/-- Classes that all stay leave the list as it is. -/
theorem merge_eq_ok_self {f : κ → List α → Except ε (Option α)} {keyed : List (Option κ × α)}
    (h : ∀ k ∈ keys keyed, f k (members keyed k) = .ok none) :
    merge f keyed = .ok (keyed.map Prod.snd) := by
  have hcollapse : ∀ (replacement? : κ → Option α) (seen : List κ) (rest : List (Option κ × α)),
      (∀ k, replacement? k = none) → collapse replacement? seen rest = rest.map Prod.snd := by
    intro replacement? seen rest hnone
    induction rest with
    | nil => rfl
    | cons p rest ih => rcases p with ⟨_ | k, a⟩ <;> simp [collapse, hnone, ih]
  have hmade : ((keys keyed).mapM fun k => (f k (members keyed k)).map fun r => (k, r)) =
      .ok ((keys keyed).map fun k => (k, none)) :=
    mapM_eq_ok_map fun k hk => by rw [h k hk]; rfl
  refine bind_eq_ok.2 ⟨_, hmade, pure_eq_ok.2 (hcollapse _ [] keyed fun k => ?_)⟩
  rw [lookup]
  cases hf : ((keys keyed).map fun k => (k, (none : Option α))).find? fun e => e.1 = k with
  | none => rfl
  | some e =>
    obtain ⟨k', -, rfl⟩ := List.mem_map.1 (List.mem_of_find?_eq_some hf)
    rfl

theorem members_map (key : α → Option κ) (xs : List α) (k : κ) :
    members (xs.map fun x => (key x, x)) k = xs.filter fun x => key x = some k := by
  rw [members, List.filterMap_map, ← List.filterMap_eq_filter]
  congr 1
  funext x
  simp [Option.guard]

/-- After merging no class is left to be replaced, if what replaces a class belongs to none. -/
theorem merge_settled {f : κ → List α → Except ε (Option α)} {key : α → Option κ}
    {xs out : List α} (h : merge f (xs.map fun x => (key x, x)) = .ok out)
    (hr : ∀ k as r, f k as = .ok (some r) → key r = none) (hnil : ∀ k, f k [] = .ok none) (k : κ) :
    f k (out.filter fun x => key x = some k) = .ok none := by
  obtain ⟨replacement?, hf, hout⟩ := merge_eq_ok h
  have hkey : ∀ p ∈ xs.map fun x => (key x, x), p.1 = key p.2 := by
    intro p hp
    obtain ⟨x, -, rfl⟩ := List.mem_map.1 hp
    rfl
  by_cases hk : f k (xs.filter fun x => key x = some k) = .ok none
  · -- The class stays, and no replacement joins it.
    have hsnd : (xs.map fun x => (key x, x)).map Prod.snd = xs := by simp [Function.comp_def]
    rw [filter_merge h, hsnd, hk]
    intro k' r hr'
    refine ⟨by simp [hr _ _ _ hr'], fun a ha => ?_⟩
    have ha' : key a = some k' := (hkey _ (mem_members.1 ha)).symm
    rw [decide_eq_false_iff_not, ha']
    rintro ⟨⟩
    rw [members_map, hk] at hr'
    cases hr'
  · have hempty : (out.filter fun x => key x = some k) = [] := by
      rw [List.filter_eq_nil_iff]
      intro x hx hxk
      rw [decide_eq_true_eq] at hxk
      obtain ⟨⟨k?, a⟩, hp, rfl⟩ := (hout x).1 hx
      cases hb : k?.bind replacement? with
      | none =>
        rw [standIn, hb, Option.getD_none] at hxk
        have hka : k? = some k := (hkey _ hp).trans hxk
        subst hka
        refine hk ?_
        rw [← members_map, hf k (mem_keys.2 ⟨a, hp⟩)]
        exact congrArg Except.ok hb
      | some r =>
        obtain ⟨k', rfl, hrk⟩ := Option.bind_eq_some_iff.1 hb
        rw [standIn, hb, Option.getD_some, hr _ _ r (hrk ▸ hf k' (mem_keys.2 ⟨a, hp⟩))] at hxk
        cases hxk
    rw [hempty, hnil]

/-- Merging makes nothing heavier if a replacement is as light as each member of its class. -/
theorem sum_merge_le {f : κ → List α → Except ε (Option α)} {keyed : List (Option κ × α)}
    {out : List α} {w : α → Nat} (h : merge f keyed = .ok out)
    (hw : ∀ k r, f k (members keyed k) = .ok (some r) →
      ∀ a ∈ members keyed k, w r ≤ w a) :
    (out.map w).sum ≤ ((keyed.map Prod.snd).map w).sum := by
  have hcollapse : ∀ (replacement? : κ → Option α) (rest : List (Option κ × α)),
      (∀ k a r, (some k, a) ∈ rest → replacement? k = some r → w r ≤ w a) →
      ∀ seen, ((collapse replacement? seen rest).map w).sum ≤
        ((rest.map Prod.snd).map w).sum := by
    intro replacement? rest
    induction rest with
    | nil => exact fun _ _ => Nat.le_refl _
    | cons p rest ih =>
      intro hr seen
      have ih := ih fun k a r hp => hr k a r (List.mem_cons_of_mem p hp)
      rcases p with ⟨_ | k, a⟩
      · simpa [collapse] using ih seen
      · rw [collapse]
        cases hk : replacement? k with
        | none => simpa using ih seen
        | some r =>
          have hra := hr k a r List.mem_cons_self hk
          by_cases hs : k ∈ seen
          · simpa [hs] using Nat.le_add_left_of_le (ih seen)
          · simpa [hs] using Nat.add_le_add hra (ih (k :: seen))
  obtain ⟨replacement?, hr, rfl⟩ := merge_eq_collapse h
  refine hcollapse replacement? keyed (fun k a r hp hk => ?_) []
  exact hw k r (hk ▸ hr k (mem_keys.2 ⟨a, hp⟩)) a (mem_members.2 hp)

/-! ## Merging without faults -/

/-- Merging classes yields what the replacements and the elements are. -/
theorem yields_merge {P : α → Prop}
    {f : κ → List α → Result (Option α)} {keyed : List (Option κ × α)}
    (hf : ∀ k, Yields (f k (members keyed k)) fun r => ∀ x, r = some x → P x)
    (hk : ∀ p ∈ keyed, P p.2) :
    Yields (merge f keyed) fun out => (keyed ≠ [] → out ≠ []) ∧ ∀ x ∈ out, P x := by
  have hfault : Yields (merge f keyed) fun _ => True :=
    (yields_mapM (Q := fun _ => True) fun k _ => (hf k).map fun _ _ => trivial).bind
      fun _ _ _ => yields_pure trivial
  refine hfault.mono fun out hout _ => ⟨fun hne => ?_, fun x hx => ?_⟩
  · obtain ⟨replacement?, -, hmem⟩ := merge_eq_ok hout
    obtain ⟨p, hp⟩ := List.exists_mem_of_ne_nil keyed hne
    exact List.ne_nil_of_mem ((hmem _).2 ⟨p, hp, rfl⟩)
  · rcases mem_merge hout hx with ⟨p, hp, rfl⟩ | ⟨k, hr⟩
    · exact hk p hp
    · exact (hf k).2 _ hr x rfl

end Classes

end AudienceFilter
