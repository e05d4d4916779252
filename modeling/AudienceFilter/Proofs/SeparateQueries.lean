import AudienceFilter.Proofs.BuilderCalls

/-!
# Filter queries are written separately

The filter queries of a conversion are written by one builder, one after the other. Outside joins
it has no brace of a join open, so taking a query leaves it as good as new, and each query is what
its script writes on its own.

* `Builder.Tidy`: no brace of a join is open outside it;
* `Builder.Tidy.apply`: commands keep a builder tidy;
* `Builder.runAll_fresh`: the queries of scripts, script by script.
-/

namespace AudienceFilter.Builder

/-- Whether a builder outside joins has no brace of a join open. -/
def Tidy (b : Builder) : Prop := b.scope = .main → b.joinDepth = 0

variable {b b' : Builder}

theorem Tidy.separate (h : b.Tidy) (j : Connective) : (b.separate j).Tidy := by
  rw [Builder.separate, gap_eq_write]
  exact h

theorem Tidy.openBrace (h : b.Tidy) : b.openBrace.Tidy := by
  rw [Tidy, Builder.openBrace, deepen]
  split
  · exact h
  · next hs => exact fun hm => absurd hm hs

theorem Tidy.closeBrace (h : b.Tidy) (hb : b.closeBrace = .ok b') : b'.Tidy := by
  unfold Builder.closeBrace at hb
  split at hb
  · cases hb
  · obtain rfl := Except.ok.inj hb
    show b.rise.scope = .main → b.rise.joinDepth = 0
    rw [rise]
    split
    · exact h
    · next hs => exact fun hm => absurd hm hs

theorem Tidy.append {q : FilterQuery} (h : b.Tidy) (hb : b.append q = .ok b') : b'.Tidy := by
  rw [append_eq_ok hb]
  exact h

theorem Tidy.appendAll {qs : List FilterQuery} (h : b.Tidy) (hb : b.appendAll qs = .ok b') :
    b'.Tidy := by
  induction qs generalizing b with
  | nil => exact Except.ok.inj hb ▸ h
  | cons q qs ih =>
    obtain ⟨b₁, hb₁, hb⟩ := bind_eq_ok.1 hb
    exact ih ((h.separate .and).append hb₁) hb

/-- A join starts with none of its braces open. -/
theorem tidy_startJoin {scope : Scope} {header nodeType : String} {qs : List FilterQuery}
    (hb : b.startJoin scope header nodeType qs = .ok b') : b'.Tidy := by
  obtain ⟨-, filtered, hfiltered, rfl⟩ := startJoin_eq_ok hb
  rw [joinGap_eq_write] at hfiltered
  exact (Tidy.appendAll (fun _ => rfl) hfiltered).separate .and

theorem tidy_endJoin (hb : b.endJoin = .ok b') : b'.Tidy := by
  unfold Builder.endJoin at hb
  split at hb
  · cases hb
  · split at hb
    · cases hb
    · next hj =>
      obtain rfl := Except.ok.inj hb
      rw [joinGap_eq_write]
      exact fun _ => Decidable.not_not.1 hj

/-- Commands keep a builder tidy. -/
theorem Tidy.apply {c : Command} (h : b.Tidy) (hb : b.apply c = .ok b') : b'.Tidy := by
  cases c with
  | openBrace => exact Except.ok.inj hb ▸ h.openBrace
  | closeBrace => exact h.closeBrace (liftFault_eq_ok.1 hb)
  | openComplement => exact Except.ok.inj hb ▸ h.openBrace
  | separator j => exact Except.ok.inj hb ▸ h.separate j
  | endJoin => exact tidy_endJoin (liftFault_eq_ok.1 hb)
  | append q => exact h.append (liftFault_eq_ok.1 hb)
  | startNested nodeType filters =>
    obtain ⟨main, -, hb⟩ := bind_eq_ok.1 hb
    obtain ⟨inner, -, hb⟩ := bind_eq_ok.1 hb
    exact tidy_startJoin (liftFault_eq_ok.1 hb)
  | startDependent nodeType filters =>
    obtain ⟨main, -, hb⟩ := bind_eq_ok.1 hb
    obtain ⟨key, -, hb⟩ := bind_eq_ok.1 hb
    obtain ⟨inner, -, hb⟩ := bind_eq_ok.1 hb
    exact tidy_startJoin (liftFault_eq_ok.1 hb)

/-- Scripts keep a builder tidy, and its names and style. -/
theorem Tidy.run {steps : List Step} (h : b.Tidy) (hb : b.run steps = .ok b') :
    b'.Tidy ∧ b'.names = b.names ∧ b'.style = b.style := by
  induction steps generalizing b with
  | nil => exact Except.ok.inj hb ▸ ⟨h, rfl, rfl⟩
  | cons s steps ih =>
    cases s with
    | fail f => cases hb
    | call c =>
      obtain ⟨b₁, hb₁, hb⟩ := bind_eq_ok.1 hb
      obtain ⟨htidy, hnames, hstyle⟩ := ih (h.apply hb₁) hb
      have hadds := adds_apply hb₁
      exact ⟨htidy, hnames.trans hadds.names, hstyle.trans hadds.style⟩

/-- The filter query that a script writes on its own. -/
def query (names : IndexNames) (style : Style) (steps : List Step) : Result FilterQuery := do
  let b ← (fresh names style).run steps
  (liftFault b.result).map Prod.fst

/-- Scripts write the same filter queries one after the other as each on its own. -/
theorem runAll_fresh (names : IndexNames) (style : Style) (scripts : List (List Step)) :
    (fresh names style).runAll scripts = scripts.mapM (query names style) := by
  induction scripts with
  | nil => rfl
  | cons steps scripts ih =>
    rw [runAll, List.mapM_cons, query]
    cases hb : (fresh names style).run steps with
    | error f => rfl
    | ok b =>
      cases hr : b.result with
      | error f =>
        simp only [hr, bind, Except.bind]
        rfl
      | ok r =>
        obtain ⟨q, b'⟩ := r
        obtain ⟨htidy, hnames, hstyle⟩ := Tidy.run (fun _ => rfl) hb
        have hfresh : b' = fresh names style := by
          rw [result_leaves_fresh htidy hr, hnames, hstyle]
          rfl
        simp only [hr, hfresh, ← ih, bind, Except.bind]
        rfl

end AudienceFilter.Builder
