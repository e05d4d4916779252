import AudienceFilter.Fault

/-!
# Results taken apart

A conversion is a sequence of steps that may fail. `bind_eq_ok` opens one step of a sequence
that succeeds. `Yields` says of a result that it is no fault and what it is unless it is an error,
and `Yields.bind` puts this together for a sequence of steps.
-/

namespace AudienceFilter

variable {ε α β : Type}

theorem bind_eq_ok {x : Except ε α} {f : α → Except ε β} {b : β} :
    x >>= f = .ok b ↔ ∃ a, x = .ok a ∧ f a = .ok b := by
  cases x with
  | error e => simp [bind, Except.bind]
  | ok a => simp [bind, Except.bind]

theorem exists_of_isOk {x : Except ε α} (h : x.isOk = true) : ∃ a, x = .ok a := by
  cases x with
  | error e => cases h
  | ok a => exact ⟨a, rfl⟩

theorem eq_ok_of_toOption {x : Except ε α} {a : α} (h : x.toOption = some a) : x = .ok a := by
  cases x with
  | error e => cases h
  | ok b => exact congrArg Except.ok (Option.some.inj h)

/-- What a result failed with. -/
def failure? : Except ε α → Option ε
  | .error e => some e
  | .ok _ => none

theorem eq_error_of_failure? {x : Except ε α} {e : ε} (h : failure? x = some e) :
    x = .error e := by
  cases x with
  | error e' => exact congrArg Except.error (Option.some.inj h)
  | ok a => cases h

theorem pure_eq_ok {a b : α} : (pure a : Except ε α) = .ok b ↔ a = b := by
  simp [pure, Except.pure]

theorem map_eq_ok {x : Except ε α} {f : α → β} {b : β} :
    x.map f = .ok b ↔ ∃ a, x = .ok a ∧ f a = b := by
  cases x with
  | error e => simp [Except.map]
  | ok a => simp [Except.map]

theorem mapError_eq_ok {ε' : Type} {x : Except ε α} {f : ε → ε'} {a : α} :
    x.mapError f = .ok a ↔ x = .ok a := by
  cases x with
  | error e => exact ⟨nofun, nofun⟩
  | ok a =>
    constructor
    · rintro ⟨⟩
      rfl
    · rintro ⟨⟩
      rfl

theorem liftError_eq_ok {r : Except ConversionError α} {a : α} :
    liftError r = .ok a ↔ r = .ok a := mapError_eq_ok

theorem liftError_bind (x : Except ConversionError α) (f : α → Except ConversionError β) :
    liftError (x >>= f) = liftError x >>= fun y => liftError (f y) := by
  cases x with
  | ok y => rfl
  | error e => rfl

theorem liftName_eq_ok {r : Except MappingError α} {a : α} :
    liftName r = .ok a ↔ r = .ok a := mapError_eq_ok

theorem liftFault_eq_ok {r : Except Fault α} {a : α} :
    liftFault r = .ok a ↔ r = .ok a := mapError_eq_ok

theorem mapM_cons_eq_ok {f : α → Except ε β} {x : α} {xs : List α} {out : List β} :
    (x :: xs).mapM f = .ok out ↔
      ∃ y ys, f x = .ok y ∧ xs.mapM f = .ok ys ∧ out = y :: ys := by
  rw [List.mapM_cons, bind_eq_ok]
  constructor
  · rintro ⟨y, hy, h⟩
    obtain ⟨ys, hys, h⟩ := bind_eq_ok.1 h
    exact ⟨y, ys, hy, hys, (pure_eq_ok.1 h).symm⟩
  · rintro ⟨y, ys, hy, hys, rfl⟩
    exact ⟨y, hy, bind_eq_ok.2 ⟨ys, hys, rfl⟩⟩

theorem mapM_congr {f g : α → Except ε β} {xs : List α} (h : ∀ x ∈ xs, f x = g x) :
    xs.mapM f = xs.mapM g := by
  induction xs with
  | nil => rfl
  | cons x xs ih =>
    rw [List.forall_mem_cons] at h
    rw [List.mapM_cons, List.mapM_cons, h.1, ih h.2]

/-- Every element of a mapped list comes from one of the list. -/
theorem mem_of_mapM_eq_ok {f : α → Except ε β} {xs : List α} {out : List β}
    (h : xs.mapM f = .ok out) {y : β} (hy : y ∈ out) : ∃ x ∈ xs, f x = .ok y := by
  induction xs generalizing out with
  | nil =>
    rw [List.mapM_nil, pure_eq_ok] at h
    exact absurd (h ▸ hy) List.not_mem_nil
  | cons x xs ih =>
    obtain ⟨z, zs, hz, hzs, rfl⟩ := mapM_cons_eq_ok.1 h
    rcases List.mem_cons.1 hy with rfl | hy
    · exact ⟨x, List.mem_cons_self, hz⟩
    · obtain ⟨x', hx', h'⟩ := ih hzs hy
      exact ⟨x', List.mem_cons_of_mem x hx', h'⟩

/-- Every element of a list comes out mapped. -/
theorem exists_of_mapM_eq_ok {f : α → Except ε β} {xs : List α} {out : List β}
    (h : xs.mapM f = .ok out) {x : α} (hx : x ∈ xs) : ∃ y ∈ out, f x = .ok y := by
  induction xs generalizing out with
  | nil => exact absurd hx List.not_mem_nil
  | cons z xs ih =>
    obtain ⟨w, ws, hw, hws, rfl⟩ := mapM_cons_eq_ok.1 h
    rcases List.mem_cons.1 hx with rfl | hx
    · exact ⟨w, List.mem_cons_self, hw⟩
    · obtain ⟨y, hy, h'⟩ := ih hws hx
      exact ⟨y, List.mem_cons_of_mem w hy, h'⟩

/-- What two functions say of an element and of what it is mapped to, they say of the lists. -/
theorem map_of_mapM_eq_ok {γ : Type} {f : α → Except ε β} {g : β → γ} {h : α → γ} {xs : List α}
    {out : List β} (hm : xs.mapM f = .ok out) (hg : ∀ x ∈ xs, ∀ y, f x = .ok y → g y = h x) :
    out.map g = xs.map h := by
  induction xs generalizing out with
  | nil =>
    rw [List.mapM_nil, pure_eq_ok] at hm
    rw [← hm]
    rfl
  | cons x xs ih =>
    obtain ⟨y, ys, hy, hys, rfl⟩ := mapM_cons_eq_ok.1 hm
    rw [List.map_cons, List.map_cons, hg x List.mem_cons_self y hy,
      ih hys fun z hz => hg z (List.mem_cons_of_mem x hz)]

/-- A list is mapped element by element where no element fails. -/
theorem mapM_eq_ok_map {f : α → Except ε β} {g : α → β} {xs : List α}
    (h : ∀ x ∈ xs, f x = .ok (g x)) : xs.mapM f = .ok (xs.map g) := by
  induction xs with
  | nil => rfl
  | cons x xs ih =>
    rw [List.forall_mem_cons] at h
    exact mapM_cons_eq_ok.2 ⟨g x, xs.map g, h.1, ih h.2, rfl⟩

/-- A list is mapped where each element is, and what they come out as stands in their places. -/
theorem exists_mapM_eq_ok {f : α → Except ε β} {R : α → β → Prop} {xs : List α}
    (h : ∀ x ∈ xs, ∃ y, f x = .ok y ∧ R x y) :
    ∃ ys, xs.mapM f = .ok ys ∧ ys.length = xs.length ∧ ∀ p ∈ xs.zip ys, R p.1 p.2 := by
  induction xs with
  | nil => exact ⟨[], rfl, rfl, fun _ hp => absurd hp List.not_mem_nil⟩
  | cons x xs ih =>
    rw [List.forall_mem_cons] at h
    obtain ⟨⟨y, hy, hR⟩, hrest⟩ := h
    obtain ⟨ys, hys, hlen, hRs⟩ := ih hrest
    refine ⟨y :: ys, mapM_cons_eq_ok.2 ⟨y, ys, hy, hys, rfl⟩, congrArg (· + 1) hlen, ?_⟩
    exact List.forall_mem_cons.2 ⟨hR, hRs⟩

/-- A mapped list has one result for each element, in their order. -/
theorem zip_of_mapM_eq_ok {f : α → Except ε β} {xs : List α} {out : List β}
    (h : xs.mapM f = .ok out) : out.length = xs.length ∧ ∀ p ∈ xs.zip out, f p.1 = .ok p.2 := by
  induction xs generalizing out with
  | nil =>
    rw [List.mapM_nil, pure_eq_ok] at h
    exact h ▸ ⟨rfl, fun _ hp => absurd hp List.not_mem_nil⟩
  | cons x xs ih =>
    obtain ⟨y, ys, hy, hys, rfl⟩ := mapM_cons_eq_ok.1 h
    obtain ⟨hlen, hall⟩ := ih hys
    exact ⟨congrArg (· + 1) hlen, List.forall_mem_cons.2 ⟨hy, hall⟩⟩

/-- What agrees element by element agrees on the lists. -/
theorem map_eq_of_zip {γ : Type} {f : α → γ} {g : β → γ} {xs : List α} {ys : List β}
    (hlen : ys.length = xs.length) (h : ∀ p ∈ xs.zip ys, g p.2 = f p.1) :
    ys.map g = xs.map f := by
  induction xs generalizing ys with
  | nil => rw [List.eq_nil_of_length_eq_zero hlen, List.map_nil, List.map_nil]
  | cons x xs ih =>
    obtain ⟨y, ys, rfl⟩ := List.exists_cons_of_length_eq_add_one hlen
    rw [List.zip_cons_cons, List.forall_mem_cons] at h
    rw [List.map_cons, List.map_cons, h.1, ih (Nat.succ.inj hlen) h.2]

theorem exists_mem_zip {xs : List α} {ys : List β} (hlen : ys.length = xs.length)
    {y : β} (hy : y ∈ ys) : ∃ x, (x, y) ∈ xs.zip ys := by
  rw [← List.map_snd_zip (Nat.le_of_eq hlen)] at hy
  obtain ⟨⟨x, _⟩, hp, rfl⟩ := List.mem_map.1 hy
  exact ⟨x, hp⟩

/-- Elements that stand for others keep apart what those did. -/
theorem pairwise_of_zip {R : α → α → Prop} {S : β → β → Prop} {xs : List α}
    {ys : List β} (hlen : ys.length = xs.length) (hR : xs.Pairwise R)
    (h : ∀ p ∈ xs.zip ys, ∀ q ∈ xs.zip ys, R p.1 q.1 → S p.2 q.2) : ys.Pairwise S := by
  induction xs generalizing ys with
  | nil => exact List.eq_nil_of_length_eq_zero hlen ▸ .nil
  | cons x xs ih =>
    obtain ⟨y, ys, rfl⟩ := List.exists_cons_of_length_eq_add_one hlen
    have hlen := Nat.succ.inj hlen
    rw [List.pairwise_cons] at hR
    refine .cons (fun z hz => ?_) (ih hlen hR.2 fun p hp q hq =>
      h p (List.mem_cons_of_mem _ hp) q (List.mem_cons_of_mem _ hq))
    obtain ⟨x', hx'⟩ := exists_mem_zip hlen hz
    exact h (x, y) List.mem_cons_self (x', z) (List.mem_cons_of_mem _ hx')
      (hR.1 x' (List.of_mem_zip hx').1)

/-- Elements that come out as they are leave the list as it is. -/
theorem mapM_eq_ok_self {f : α → Except ε α} {xs : List α} (h : ∀ x ∈ xs, f x = .ok x) :
    xs.mapM f = .ok xs := by
  rw [mapM_eq_ok_map (g := id) h, List.map_id]

/-- Elements of a kind stay as they are, in their order, if only others change, and into others. -/
theorem filter_of_mapM_eq_ok {f : α → Except ε α} {P : α → Bool} {xs out : List α}
    (hm : xs.mapM f = .ok out)
    (hP : ∀ x ∈ xs, ∀ y, f x = .ok y → y = x ∨ P x = false ∧ P y = false) :
    out.filter P = xs.filter P := by
  induction xs generalizing out with
  | nil =>
    rw [List.mapM_nil, pure_eq_ok] at hm
    rw [← hm]
  | cons x xs ih =>
    obtain ⟨y, ys, hy, hys, rfl⟩ := mapM_cons_eq_ok.1 hm
    have hrest := ih hys fun z hz => hP z (List.mem_cons_of_mem x hz)
    rcases hP x List.mem_cons_self y hy with rfl | ⟨hx, hy⟩
    · rw [List.filter_cons, List.filter_cons, hrest]
    · simp [hx, hy, hrest]

/-! ## Results without faults -/

/-- Whether a result is no fault, and has a property if it is no error either. -/
def Yields (r : Result α) (P : α → Prop) : Prop :=
  (∀ f, r ≠ .error (.fault f)) ∧ ∀ a, r = .ok a → P a

variable {P : α → Prop} {Q : β → Prop}

theorem yields_ok {a : α} (h : P a) : Yields (.ok a) P :=
  ⟨nofun, fun _ ha => Except.ok.inj ha ▸ h⟩

theorem yields_pure {a : α} (h : P a) : Yields (pure a) P := yields_ok h

theorem Yields.mono {P' : α → Prop} {r : Result α} (h : Yields r P)
    (hp : ∀ a, r = .ok a → P a → P' a) : Yields r P' :=
  ⟨h.1, fun a ha => hp a ha (h.2 a ha)⟩

theorem Yields.weaken {r : Result α} (h : Yields r P) : Yields r fun _ => True :=
  ⟨h.1, fun _ _ => trivial⟩

/-- A sequence yields what its last step does, given what the steps before it did. -/
theorem Yields.bind {r : Result α} {f : α → Result β} (h : Yields r P)
    (hf : ∀ a, r = .ok a → P a → Yields (f a) Q) : Yields (r >>= f) Q := by
  cases r with
  | ok a => exact hf a rfl (h.2 a rfl)
  | error e =>
    refine ⟨fun g hg => h.1 g ?_, nofun⟩
    exact congrArg Except.error (Except.error.inj hg)

theorem Yields.map {r : Result α} {f : α → β} (h : Yields r P) (hf : ∀ a, P a → Q (f a)) :
    Yields (r.map f) Q := by
  cases r with
  | ok a => exact yields_ok (hf a (h.2 a rfl))
  | error e =>
    refine ⟨fun g hg => h.1 g ?_, nofun⟩
    exact congrArg Except.error (Except.error.inj hg)

/-- What is only reported is no fault. -/
theorem yields_liftError {r : Except ConversionError α} : Yields (liftError r) (r = .ok ·) := by
  refine ⟨fun f hf => ?_, fun a ha => liftError_eq_ok.1 ha⟩
  cases r with
  | ok a => cases hf
  | error e => cases hf

theorem yields_liftName {r : Except MappingError α} : Yields (liftName r) (r = .ok ·) := by
  refine ⟨fun f hf => ?_, fun a ha => liftName_eq_ok.1 ha⟩
  cases r with
  | ok a => cases hf
  | error e => cases hf

theorem yields_liftFault {r : Except Fault α} {a : α} (h : r = .ok a) (ha : P a) :
    Yields (liftFault r) P :=
  h ▸ yields_ok ha

/-- A list is mapped if each of its elements is. -/
theorem yields_mapM {f : α → Result β} {xs : List α} (h : ∀ x ∈ xs, Yields (f x) Q) :
    Yields (xs.mapM f) fun ys => ys.length = xs.length ∧ ∀ y ∈ ys, Q y := by
  induction xs with
  | nil => exact yields_pure ⟨rfl, fun _ hy => absurd hy List.not_mem_nil⟩
  | cons x xs ih =>
    rw [List.forall_mem_cons] at h
    rw [List.mapM_cons]
    refine h.1.bind fun y _ hy => (ih h.2).bind fun ys _ hys => yields_pure ?_
    exact ⟨congrArg (· + 1) hys.1, List.forall_mem_cons.2 ⟨hy, hys.2⟩⟩

end AudienceFilter
