import AudienceFilter.Proofs.MergedLevels
import AudienceFilter.Proofs.Reordering

/-!
# Which bounds take an equality

A bound and the equality with its operand become one inclusive bound. Where an equality has both a
lower and an upper bound beside it, the one that comes first takes it. So the outcome is settled by
what stands on a level and, for each equality, by the first bound that it belongs to:

* `firstBound?`: the bound that takes an equality;
* `paired`: what becomes of a tree;
* `mergeBoundPairs_perm`: merging bounds with their equalities, tree by tree;
* `Uncontested.sameFirstBounds`: levels on which the order settles nothing;
* `sameOutcome_mergeBoundPairs`: levels in another order.
-/

namespace AudienceFilter.MatchTree

/-- The single conditions among trees. -/
def singles (items : List MatchTree) : List Single := items.filterMap single?

/-- The equality that belongs to a bound. -/
def equalityOf (b : Single) : Single :=
  { b with condition := { b.condition with op := .equals } }

/-- Whether a bound of the given polarity is one that an equality belongs to. -/
def takes (p : Polarity) (e b : Single) : Bool :=
  b.polarity == p && b.condition.op.isBound && equalityOf b == e

/-- The first bound of the given polarity that an equality belongs to. -/
def firstBound? (p : Polarity) (items : List MatchTree) (e : Single) : Option Single :=
  (singles items).find? (takes p e)

/-- A bound together with its equality. -/
def inclusive (ctx : Context) (p : Polarity) (b : Single) : MatchTree :=
  match ctx.multi b.nodeType b.condition [(equalityOf b).condition] p with
  | .ok m => .leaf (.multi m)
  | .error _ => .leaf (.single b)

/-- What becomes of a single condition: a bound that takes its equality becomes inclusive, and the
equality goes. -/
def pairedSingle (ctx : Context) (p : Polarity) (items : List MatchTree) (s : Single) :
    List MatchTree :=
  if equalityOf s ∈ singles items ∧ firstBound? p items (equalityOf s) = some s then
    [inclusive ctx p s]
  else if (firstBound? p items s).isSome then []
  else [.leaf (.single s)]

/-- What becomes of a tree when bounds are merged with their equalities. -/
def paired (ctx : Context) (p : Polarity) (items : List MatchTree) (t : MatchTree) :
    List MatchTree :=
  match t.single? with
  | none => [t]
  | some s => pairedSingle ctx p items s

variable {ctx : Context} {p : Polarity} {items : List MatchTree}

theorem takes_iff {e b : Single} : takes p e b = true ↔
    b.polarity = p ∧ b.condition.op.isBound = true ∧ equalityOf b = e := by
  simp [takes, and_assoc]

theorem mem_singles {s : Single} : s ∈ singles items ↔ .leaf (.single s) ∈ items := by
  rw [singles, List.mem_filterMap]
  constructor
  · rintro ⟨t, ht, hs⟩
    exact single?_eq_some hs ▸ ht
  · exact fun h => ⟨_, h, rfl⟩

theorem firstBound?_eq_some {e b : Single} (h : firstBound? p items e = some b) :
    b ∈ singles items ∧ b.polarity = p ∧ b.condition.op.isBound = true ∧ equalityOf b = e :=
  ⟨List.mem_of_find?_eq_some h, takes_iff.1 (List.find?_some h)⟩

/-! ## One step -/

/-- Whether a level has the equality of a bound. -/
def hasEquality (p : Polarity) (items : List MatchTree) (b : Single) : Bool :=
  b.polarity = p && b.condition.op.isBound && items.any (isEqualityOf b)

/-- The pair that is merged has the first bound with an equality. -/
theorem find?_of_boundPair? {b : Single} {i k : Nat} (h : boundPair? p items = some (b, i, k)) :
    (singles items).find? (hasEquality p items) = some b := by
  obtain ⟨before, ⟨t, n⟩, behind, hsplit, ht, hbefore⟩ := List.findSome?_eq_some_iff.1 h
  have hitems : items = before.map Prod.fst ++ t :: behind.map Prod.fst := by
    simpa using congrArg (List.map Prod.fst) hsplit
  simp only [Option.pure_def, Option.bind_eq_bind, Option.bind_eq_some_iff,
    Option.bind_eq_none_iff] at ht hbefore
  obtain ⟨b', hb, m, hm, ht⟩ := ht
  cases ht
  obtain ⟨hs, hbound⟩ := Option.filter_eq_some_iff.1 hb
  refine List.find?_eq_some_iff_append.2 ⟨?_, singles (before.map Prod.fst),
    singles (behind.map Prod.fst), ?_, fun s hs => ?_⟩
  · rw [hasEquality, hbound, Bool.true_and, List.any_eq_true]
    obtain ⟨hlt, heq, -⟩ := List.findIdx?_eq_some_iff_getElem.1 hm
    exact ⟨_, List.getElem_mem hlt, heq⟩
  · rw [hitems]
    simp [singles, hs]
  · obtain ⟨⟨_, n'⟩, hmem, rfl⟩ := List.mem_map.1 (mem_singles.1 hs)
    rw [Bool.not_eq_true', Bool.eq_false_iff]
    intro hs
    obtain ⟨hbound, hany⟩ := Bool.and_eq_true_iff.1 hs
    rw [← List.findIdx?_isSome] at hany
    obtain ⟨k', hk'⟩ := Option.isSome_iff_exists.1 hany
    have hsome : singleBound? p (.leaf (.single s)) = some s := by
      rw [singleBound?, single?, Option.filter_some, if_pos hbound]
    cases hbefore _ hmem s hsome k' hk'

/-- The first element that passes a test is the first that passes a stricter one, if it does. -/
theorem find?_of_stricter {α : Type} {P Q : α → Bool} {xs : List α} {a : α}
    (h : xs.find? Q = some a) (ha : P a = true) (hPQ : ∀ x ∈ xs, P x = true → Q x = true) :
    xs.find? P = some a := by
  obtain ⟨-, front, back, rfl, hfront⟩ := List.find?_eq_some_iff_append.1 h
  refine List.find?_eq_some_iff_append.2 ⟨ha, front, back, rfl, fun x hx => ?_⟩
  have hx' := hfront x hx
  have := hPQ x (List.mem_append_left _ hx)
  grind

/-- Whether the single conditions of a level are apart, and none is kept from joins. -/
structure Apart (items : List MatchTree) : Prop where
  nodup : (singles items).Nodup
  joinable : ∀ s ∈ singles items, s.joinable = true

/-- On a level, the equality of a bound is the one that it determines. -/
theorem Apart.isEqualityOf_iff (h : Apart items) {b : Single} (hb : b ∈ singles items)
    {t : MatchTree} (ht : t ∈ items) :
    isEqualityOf b t = true ↔ t = .leaf (.single (equalityOf b)) := by
  rw [isEqualityOf, Option.any_eq_true]
  constructor
  · rintro ⟨s, hs, heq⟩
    obtain rfl := single?_eq_some hs
    have hjoin := (h.joinable s (mem_singles.2 ht)).trans (h.joinable b hb).symm
    simp only [Bool.and_eq_true, beq_iff_eq] at heq
    obtain ⟨⟨⟨⟨hpol, hop⟩, harg⟩, hnode⟩, hoperand⟩ := heq
    rcases s with ⟨sn, ⟨sa, so, sd⟩, sp, sj⟩
    simp_all [equalityOf]
  · rintro rfl
    exact ⟨_, rfl, by simp [equalityOf]⟩

theorem Apart.hasEquality_iff (h : Apart items) {b : Single} (hb : b ∈ singles items) :
    hasEquality p items b = true ↔
      b.polarity = p ∧ b.condition.op.isBound = true ∧ equalityOf b ∈ singles items := by
  rw [hasEquality, Bool.and_eq_true, Bool.and_eq_true, decide_eq_true_eq, List.any_eq_true,
    mem_singles, and_assoc]
  refine and_congr_right fun _ => and_congr_right fun _ => ⟨?_, fun he => ?_⟩
  · rintro ⟨t, ht, heq⟩
    exact (h.isEqualityOf_iff hb ht).1 heq ▸ ht
  · exact ⟨_, he, (h.isEqualityOf_iff hb he).2 rfl⟩

/-- What merging one pair does to a level: it takes out a bound and its equality and puts in the
inclusive bound. -/
structure Step (b : Single) (z : MatchTree) (items out : List MatchTree) : Prop where
  bound : b ∈ singles items
  equality : equalityOf b ∈ singles items
  rest : ∃ rest, items.Perm (.leaf (.single b) :: .leaf (.single (equalityOf b)) :: rest) ∧
    out.Perm (z :: rest)
  singles : singles out = (singles items).filter fun s => s ≠ b ∧ s ≠ equalityOf b

theorem singles_append (xs ys : List MatchTree) : singles (xs ++ ys) = singles xs ++ singles ys :=
  List.filterMap_append

theorem singles_cons_single (s : Single) (ts : List MatchTree) :
    singles (.leaf (.single s) :: ts) = s :: singles ts := rfl

theorem singles_cons_none {t : MatchTree} (ht : t.single? = none) (ts : List MatchTree) :
    singles (t :: ts) = singles ts := by
  rw [singles, List.filterMap_cons_none ht, singles]

/-- Two elements taken out of a list without repetition. -/
theorem filter_ne_ne {α : Type} [DecidableEq α] {front mid back : List α} {x y : α}
    (h : (front ++ x :: (mid ++ y :: back)).Nodup) :
    (front ++ x :: (mid ++ y :: back)).filter (fun a => a ≠ x ∧ a ≠ y) =
      front ++ (mid ++ back) := by
  have hself : ∀ zs : List α, x ∉ zs → y ∉ zs → zs.filter (fun a => a ≠ x ∧ a ≠ y) = zs := by
    intro zs hx hy
    refine List.filter_eq_self.2 fun a ha => decide_eq_true ⟨?_, ?_⟩
    · rintro rfl
      exact hx ha
    · rintro rfl
      exact hy ha
  simp only [List.nodup_append, List.nodup_cons, List.mem_append, List.mem_cons] at h
  rw [List.filter_append, List.filter_cons_of_neg (by simp), List.filter_append,
    List.filter_cons_of_neg (by simp), hself front (by grind) (by grind),
    hself mid (by grind) (by grind), hself back (by grind) (by grind)]

theorem Apart.step (h : Apart items) {b : Single} {i k : Nat} {z : MatchTree}
    (hz : z.single? = none) (hpair : boundPair? p items = some (b, i, k)) :
    Step b z items ((items.set (min i k) z).eraseIdx (max i k)) := by
  obtain ⟨e, hbi, hek, hbp, hep, hbound, hnode, hcond⟩ := boundPair?_eq_some hpair
  have hb : b ∈ MatchTree.singles items := mem_singles.2 (List.mem_of_getElem? hbi)
  have he : e ∈ MatchTree.singles items := mem_singles.2 (List.mem_of_getElem? hek)
  have heq : e = equalityOf b := by
    have hjoin := (h.joinable e he).trans (h.joinable b hb).symm
    rcases e with ⟨en, ec, ep, ej⟩
    rcases b with ⟨bn, bc, bp, bj⟩
    simp_all [equalityOf]
  subst heq
  obtain ⟨x, y, front, mid, back, hitems, hout, hxy⟩ :=
    exists_of_replace (z := z) hbi hek (ne_of_boundPair? hpair)
  rw [hout]
  have hnodup := h.nodup
  refine ⟨hb, he, ⟨front ++ (mid ++ back), ?_, List.perm_middle⟩, ?_⟩
  · rw [hitems]
    have hmid : (front ++ x :: (mid ++ y :: back)).Perm (x :: y :: (front ++ (mid ++ back))) :=
      List.perm_middle.trans ((((List.perm_middle).append_left front).trans
        List.perm_middle).cons x)
    rcases hxy with ⟨rfl, rfl⟩ | ⟨rfl, rfl⟩
    · exact hmid
    · exact hmid.trans (.swap _ _ _)
  · rw [hitems] at hnodup ⊢
    rcases hxy with ⟨rfl, rfl⟩ | ⟨rfl, rfl⟩
    · simp only [singles_append, singles_cons_single, singles_cons_none hz] at hnodup ⊢
      exact (filter_ne_ne hnodup).symm
    · simp only [singles_append, singles_cons_single, singles_cons_none hz,
        and_comm (a := _ ≠ b)] at hnodup ⊢
      exact (filter_ne_ne hnodup).symm

namespace Step

variable {b : Single} {z : MatchTree} {out : List MatchTree}

theorem mem_singles_iff (h : Step b z items out) {s : Single} :
    s ∈ MatchTree.singles out ↔ s ∈ MatchTree.singles items ∧ s ≠ b ∧ s ≠ equalityOf b := by
  rw [h.singles, List.mem_filter, decide_eq_true_eq]

theorem apart (h : Step b z items out) (ha : Apart items) : Apart out where
  nodup := by
    rw [h.singles]
    exact ha.nodup.filter _
  joinable s hs := ha.joinable s (h.mem_singles_iff.1 hs).1

/-- The other equalities are taken as before. -/
theorem firstBound? (h : Step b z items out) {e : Single} (he : e ≠ equalityOf b) :
    firstBound? p out e = MatchTree.firstBound? p items e := by
  rw [MatchTree.firstBound?, MatchTree.firstBound?, h.singles, List.find?_filter]
  congr 1
  funext s
  rw [Bool.eq_iff_iff, decide_eq_true_eq, decide_eq_true_eq, and_iff_right_iff_imp, takes_iff]
  rintro ⟨-, hbound, rfl⟩
  refine ⟨?_, ?_⟩
  · rintro rfl
    exact he rfl
  · rintro rfl
    cases hbound

/-- Single conditions outside the pair have the same fate before and after it is merged. -/
theorem pairedSingle (h : Step b z items out) (hbound : b.condition.op.isBound = true)
    (hfirst : MatchTree.firstBound? p items (equalityOf b) = some b) {s : Single}
    (hs : s ∈ MatchTree.singles out) :
    pairedSingle ctx p items s = MatchTree.pairedSingle ctx p out s := by
  obtain ⟨-, hsb, hse⟩ := h.mem_singles_iff.1 hs
  have htaken : (equalityOf s ∈ MatchTree.singles items ∧
        MatchTree.firstBound? p items (equalityOf s) = some s) ↔
      equalityOf s ∈ MatchTree.singles out ∧
        MatchTree.firstBound? p out (equalityOf s) = some s := by
    by_cases heq : equalityOf s = equalityOf b
    · -- The equality is taken by the bound of the pair.
      refine iff_of_false ?_ ?_
      · rintro ⟨-, hf⟩
        rw [heq, hfirst] at hf
        exact hsb (Option.some.inj hf).symm
      · rintro ⟨hm, -⟩
        exact (h.mem_singles_iff.1 hm).2.2 heq
    · have hne : equalityOf s ≠ b := by
        rintro rfl
        cases hbound
      rw [h.mem_singles_iff, h.firstBound? heq]
      simp [heq, hne]
  simp only [MatchTree.pairedSingle, htaken, h.firstBound? hse]

end Step

/-! ## All steps -/

theorem isEqualityOf_equalityOf (b : Single) :
    isEqualityOf b (.leaf (.single (equalityOf b))) = true := by
  simp [isEqualityOf, single?, equalityOf]

/-- Without a pair every tree stays as it is. -/
theorem paired_of_unpaired (hpair : boundPair? p items = none) {t : MatchTree} (ht : t ∈ items) :
    paired ctx p items t = [t] := by
  have hunpaired : ∀ b ∈ singles items, b.polarity = p → b.condition.op.isBound = true →
      equalityOf b ∉ singles items := by
    intro b hb hp hbound he
    have := boundPair?_eq_none_iff.1 hpair b _ (mem_singles.1 hb) (mem_singles.1 he) hp hbound
    cases (isEqualityOf_equalityOf b).symm.trans this
  rw [paired]
  split
  · rfl
  · next s hs =>
    obtain rfl := single?_eq_some hs
    have hs : s ∈ singles items := mem_singles.2 ht
    have htaken : ¬ (equalityOf s ∈ singles items ∧
        firstBound? p items (equalityOf s) = some s) := by
      rintro ⟨he, hf⟩
      obtain ⟨-, hp, hbound, -⟩ := firstBound?_eq_some hf
      exact hunpaired s hs hp hbound he
    have hgone : (firstBound? p items s).isSome = false := by
      rw [Option.isSome_eq_false_iff, Option.isNone_iff_eq_none,
        Option.eq_none_iff_forall_ne_some]
      intro b hf
      obtain ⟨hb, hp, hbound, rfl⟩ := firstBound?_eq_some hf
      exact hunpaired b hb hp hbound hs
    simp [pairedSingle, htaken, hgone]

theorem paired_single (s : Single) :
    paired ctx p items (.leaf (.single s)) = pairedSingle ctx p items s := rfl

/-- Merging one pair leads to the same trees. -/
theorem Step.flatMap_paired {b : Single} {m : Multi} {out : List MatchTree}
    (h : Step b (.leaf (.multi m)) items out) (hbound : b.condition.op.isBound = true)
    (hfirst : MatchTree.firstBound? p items (equalityOf b) = some b)
    (hm : ctx.multi b.nodeType b.condition [(equalityOf b).condition] p = .ok m) :
    (out.flatMap (paired ctx p out)).Perm (items.flatMap (paired ctx p items)) := by
  obtain ⟨rest, hitems, hout⟩ := h.rest
  have hrest : rest.flatMap (paired ctx p out) = rest.flatMap (paired ctx p items) := by
    rw [List.flatMap_def, List.flatMap_def]
    refine congrArg List.flatten (List.map_congr_left fun t ht => ?_)
    cases hs : t.single? with
    | none => rw [paired, paired, hs]
    | some s =>
      obtain rfl := single?_eq_some hs
      have hs : s ∈ MatchTree.singles out :=
        mem_singles.2 (hout.mem_iff.2 (List.mem_cons_of_mem _ ht))
      exact (h.pairedSingle hbound hfirst hs).symm
  have hb : paired ctx p items (.leaf (.single b)) = [.leaf (.multi m)] := by
    rw [paired_single, MatchTree.pairedSingle, if_pos ⟨h.equality, hfirst⟩, inclusive, hm]
  have he : paired ctx p items (.leaf (.single (equalityOf b))) = [] := by
    rw [paired_single, MatchTree.pairedSingle, if_neg, hfirst]
    · rfl
    · rintro ⟨-, hf⟩
      obtain ⟨-, -, hbound, -⟩ := firstBound?_eq_some hf
      cases hbound
  have hsame : (.leaf (.multi m) :: rest).flatMap (paired ctx p out) =
      (.leaf (.single b) :: .leaf (.single (equalityOf b)) :: rest).flatMap
        (paired ctx p items) := by
    rw [List.flatMap_cons, List.flatMap_cons, List.flatMap_cons, hb, he, hrest]
    rfl
  exact (hout.flatMap_right _).trans (.trans (.of_eq hsame) (hitems.flatMap_right _).symm)

/-- Bounds are merged with their equalities tree by tree, up to order. -/
theorem mergeBoundPairs_perm (h : Apart items)
    (hmulti : ∀ b ∈ singles items, b.polarity = p → b.condition.op.isBound = true →
      ∃ m, ctx.multi b.nodeType b.condition [(equalityOf b).condition] p = .ok m) :
    ∃ out, mergeBoundPairs ctx p items = .ok out ∧
      out.Perm (items.flatMap (paired ctx p items)) := by
  fun_induction mergeBoundPairs ctx p items with
  | case1 items hpair =>
    exact ⟨items, rfl, .of_eq (Distinct.flatMap_of_self fun t ht =>
      paired_of_unpaired hpair ht).symm⟩
  | case2 items b i k hpair equality ih =>
    have hfound := find?_of_boundPair? hpair
    have hb : b ∈ singles items := List.mem_of_find?_eq_some hfound
    obtain ⟨hp, hbound, he⟩ := (h.hasEquality_iff hb).1 (List.find?_some hfound)
    obtain ⟨m, hm⟩ := hmulti b hb hp hbound
    have hstep := h.step (z := .leaf (.multi m)) rfl hpair
    have hfirst : firstBound? p items (equalityOf b) = some b := by
      refine find?_of_stricter hfound (takes_iff.2 ⟨hp, hbound, rfl⟩) fun x hx htakes => ?_
      obtain ⟨hxp, hxbound, hxe⟩ := takes_iff.1 htakes
      exact (h.hasEquality_iff hx).2 ⟨hxp, hxbound, hxe ▸ he⟩
    obtain ⟨out, hout, hperm⟩ := ih m (hstep.apart h) fun x hx =>
      hmulti x (hstep.mem_singles_iff.1 hx).1
    exact ⟨out, bind_eq_ok.2 ⟨m, hm, hout⟩,
      hperm.trans (hstep.flatMap_paired hbound hfirst hm)⟩

/-! ## Levels in another order -/

/-- Whether the same bounds come first for the single conditions of two levels. -/
def SameFirstBounds (p : Polarity) (items items' : List MatchTree) : Prop :=
  ∀ e ∈ singles items, firstBound? p items e = firstBound? p items' e

instance (p : Polarity) (items items' : List MatchTree) :
    Decidable (SameFirstBounds p items items') :=
  inferInstanceAs (Decidable (∀ e ∈ singles items, _))

theorem singles_perm {items' : List MatchTree} (h : items.Perm items') :
    (singles items).Perm (singles items') := h.filterMap _

/-- Whether no two bounds of the given polarity on a level belong to one of its equalities. -/
def Uncontested (p : Polarity) (items : List MatchTree) : Prop :=
  ∀ e ∈ singles items, ∀ b ∈ singles items, ∀ b' ∈ singles items,
    takes p e b = true → takes p e b' = true → b = b'

instance (p : Polarity) (items : List MatchTree) : Decidable (Uncontested p items) :=
  inferInstanceAs (Decidable (∀ e ∈ singles items, _))

/-- The order of a level does not decide which bounds come first, if no two of its bounds compete
for an equality. -/
theorem Uncontested.sameFirstBounds {items' : List MatchTree} (h : Uncontested p items)
    (hperm : items.Perm items') : SameFirstBounds p items items' := by
  intro e he
  have hmem := fun s => (singles_perm hperm).mem_iff (a := s)
  cases hfirst : firstBound? p items e with
  | none =>
    exact (List.find?_eq_none.2 fun b hb => List.find?_eq_none.1 hfirst b ((hmem b).2 hb)).symm
  | some b =>
    obtain ⟨hb, hbound⟩ := firstBound?_eq_some hfirst
    have hsome : (firstBound? p items' e).isSome = true :=
      List.find?_isSome.2 ⟨b, (hmem b).1 hb, takes_iff.2 hbound⟩
    obtain ⟨b', hfirst'⟩ := Option.isSome_iff_exists.1 hsome
    obtain ⟨hb', hbound'⟩ := firstBound?_eq_some hfirst'
    rw [hfirst', h e he b hb b' ((hmem b').2 hb') (takes_iff.2 hbound) (takes_iff.2 hbound')]

theorem Apart.perm {items' : List MatchTree} (h : Apart items) (hperm : items.Perm items') :
    Apart items' where
  nodup := (singles_perm hperm).nodup_iff.1 h.nodup
  joinable s hs := h.joinable s ((singles_perm hperm).mem_iff.2 hs)

theorem paired_congr {items' : List MatchTree} (hperm : items.Perm items')
    (hsame : SameFirstBounds p items items') {t : MatchTree} (ht : t ∈ items) :
    paired ctx p items t = paired ctx p items' t := by
  cases hs : t.single? with
  | none => rw [paired, paired, hs]
  | some s =>
    obtain rfl := single?_eq_some hs
    have htaken : (equalityOf s ∈ singles items ∧
          firstBound? p items (equalityOf s) = some s) ↔
        equalityOf s ∈ singles items' ∧ firstBound? p items' (equalityOf s) = some s := by
      rw [← (singles_perm hperm).mem_iff]
      exact and_congr_right fun he => by rw [hsame _ he]
    rw [paired_single, paired_single]
    simp only [pairedSingle, htaken, hsame s (mem_singles.2 ht)]

/-- Bounds are merged with their equalities alike in another order, if the same bounds come
first. -/
theorem sameOutcome_mergeBoundPairs {items' : List MatchTree} (hperm : items.Perm items')
    (h : Apart items) (hsame : SameFirstBounds p items items')
    (hmulti : ∀ b ∈ singles items, b.polarity = p → b.condition.op.isBound = true →
      ∃ m, ctx.multi b.nodeType b.condition [(equalityOf b).condition] p = .ok m) :
    SameOutcome List.Perm (mergeBoundPairs ctx p items) (mergeBoundPairs ctx p items') := by
  obtain ⟨out, hout, hpaired⟩ := mergeBoundPairs_perm h hmulti
  obtain ⟨out', hout', hpaired'⟩ := mergeBoundPairs_perm (h.perm hperm) fun b hb =>
    hmulti b ((singles_perm hperm).mem_iff.2 hb)
  have hfates : items.flatMap (paired ctx p items) = items.flatMap (paired ctx p items') := by
    rw [List.flatMap_def, List.flatMap_def, List.map_congr_left fun t => paired_congr hperm hsame]
  rw [hout, hout']
  exact .ok (hpaired.trans (.trans (.of_eq hfates)
    ((hperm.flatMap_right _).trans hpaired'.symm)))

end AudienceFilter.MatchTree
