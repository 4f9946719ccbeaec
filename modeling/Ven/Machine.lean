import Mathlib.Data.List.Basic

namespace Machine

variable {σ α : Type*} (step : σ → α → Option σ)

/-- The state a labelled step function reaches along a list of labels. -/
def exec : σ → List α → Option σ
  | s, [] => some s
  | s, a :: as => (step s a).bind fun s' => exec s' as

/-- Every step of the run from `s` meets the condition `G`. -/
def Along (G : σ → α → Prop) : σ → List α → Prop
  | _, [] => True
  | s, a :: as => G s a ∧ ∀ s', step s a = some s' → Along G s' as

/-- `P` holds in every state of the run from `s`. -/
def Throughout (P : σ → Prop) (s : σ) (as : List α) : Prop :=
  ∀ before t, before <+: as → exec step s before = some t → P t

/-- What the steps of the run from `s` cost together. -/
def tally (w : σ → α → Nat) : σ → List α → Nat
  | _, [] => 0
  | s, a :: as => w s a + ((step s a).elim 0 fun s' => tally w s' as)

variable {step}

/-- A property that every step preserves holds at the end of every run. -/
theorem exec_invariant {I : σ → Prop} (keep : ∀ s a s', I s → step s a = some s' → I s')
    {s s' : σ} {as : List α} (hs : I s) (h : exec step s as = some s') : I s' := by
  induction as generalizing s with
  | nil => cases Option.some.inj h; exact hs
  | cons a as ih =>
    obtain ⟨mid, hm, h⟩ := Option.bind_eq_some_iff.mp h
    exact ih (keep s a mid hs hm) h

/-- The same for runs whose steps all meet a condition: only those steps need to preserve it. -/
theorem exec_invariant_along {I : σ → Prop} {G : σ → α → Prop}
    (keep : ∀ s a s', I s → G s a → step s a = some s' → I s')
    {s s' : σ} {as : List α} (hs : I s) (good : Along step G s as)
    (h : exec step s as = some s') : I s' := by
  induction as generalizing s with
  | nil => cases Option.some.inj h; exact hs
  | cons a as ih =>
    obtain ⟨mid, hm, h⟩ := Option.bind_eq_some_iff.mp h
    exact ih (keep s a mid hs good.1 hm) (good.2 mid hm) h

/-- Along such a run every step also meets what the invariant promises about it. -/
theorem along_of_invariant {I : σ → Prop} {G Q : σ → α → Prop}
    (keep : ∀ s a s', I s → G s a → step s a = some s' → I s' ∧ Q s a)
    {s s' : σ} {as : List α} (hs : I s) (good : Along step G s as) (h : exec step s as = some s') :
    I s' ∧ Along step Q s as := by
  induction as generalizing s with
  | nil => cases Option.some.inj h; exact ⟨hs, trivial⟩
  | cons a as ih =>
    obtain ⟨mid, hm, h⟩ := Option.bind_eq_some_iff.mp h
    obtain ⟨hmid, hq⟩ := keep s a mid hs good.1 hm
    obtain ⟨hend, hrest⟩ := ih hmid (good.2 mid hm) h
    refine ⟨hend, hq, fun t ht => ?_⟩
    cases Option.some.inj (hm.symm.trans ht)
    exact hrest

theorem along_cons {G : σ → α → Prop} {s s' : σ} {a : α} {as : List α} (hg : G s a) (hs : step s a = some s')
    (h : Along step G s' as) : Along step G s (a :: as) := by
  refine ⟨hg, fun t ht => ?_⟩
  cases Option.some.inj (hs.symm.trans ht)
  exact h

/-- The same without an end state. -/
theorem along_of_along {I : σ → Prop} {G Q : σ → α → Prop}
    (keep : ∀ s a, I s → G s a → Q s a ∧ ∀ s', step s a = some s' → I s')
    {s : σ} {as : List α} (hs : I s) (good : Along step G s as) : Along step Q s as := by
  induction as generalizing s with
  | nil => exact trivial
  | cons a as ih =>
    obtain ⟨hq, hnext⟩ := keep s a hs good.1
    exact ⟨hq, fun s' h => ih (hnext s' h) (good.2 s' h)⟩

/-- A condition on the labels alone. -/
theorem along_of_forall {G : σ → α → Prop} {as : List α} (h : ∀ a ∈ as, ∀ s, G s a) (s : σ) : Along step G s as := by
  induction as generalizing s with
  | nil => exact trivial
  | cons a as ih => exact ⟨h a List.mem_cons_self s, fun s' _ => ih (fun b hb => h b (List.mem_cons_of_mem a hb)) s'⟩

/-- Along a run that goes through such a condition says something about every label. -/
theorem forall_of_along {P : α → Prop} {s t : σ} {as : List α} (h : Along step (fun _ a => P a) s as)
    (run : exec step s as = some t) : ∀ a ∈ as, P a := by
  induction as generalizing s with
  | nil => exact fun _ ha => by cases ha
  | cons a as ih =>
    obtain ⟨mid, hm, run⟩ := Option.bind_eq_some_iff.mp run
    intro b hb
    rcases List.mem_cons.mp hb with rfl | hb
    · exact h.1
    · exact ih (h.2 mid hm) run b hb

theorem along_and {G Q : σ → α → Prop} {s : σ} {as : List α} (hg : Along step G s as) (hq : Along step Q s as) :
    Along step (fun s a => G s a ∧ Q s a) s as := by
  induction as generalizing s with
  | nil => exact trivial
  | cons a as ih => exact ⟨⟨hg.1, hq.1⟩, fun s' hs => ih (hg.2 s' hs) (hq.2 s' hs)⟩

instance decidableAlong {G : σ → α → Prop} [∀ s a, Decidable (G s a)] :
    ∀ (s : σ) (as : List α), Decidable (Along step G s as)
  | _, [] => isTrue trivial
  | s, a :: as =>
    match hs : step s a with
    | none => decidable_of_iff (G s a) ⟨fun hg => ⟨hg, fun _ h => nomatch hs.symm.trans h⟩, And.left⟩
    | some s' =>
      have : Decidable (Along step G s' as) := decidableAlong s' as
      decidable_of_iff (G s a ∧ Along step G s' as)
        ⟨fun h => along_cons h.1 hs h.2, fun h => ⟨h.1, h.2 s' hs⟩⟩

theorem exec_append (s : σ) (as bs : List α) : exec step s (as ++ bs) = (exec step s as).bind fun t => exec step t bs := by
  induction as generalizing s with
  | nil => rfl
  | cons a as ih =>
    simp only [List.cons_append, exec, Option.bind_assoc]
    congr 1
    funext t
    exact ih t

/-- A run that goes on where another one ends. -/
theorem along_run {G : σ → α → Prop} {s t : σ} {as bs : List α} (ha : Along step G s as) (run : exec step s as = some t)
    (hb : Along step G t bs) : Along step G s (as ++ bs) := by
  induction as generalizing s with
  | nil =>
    cases Option.some.inj run
    exact hb
  | cons a as ih =>
    obtain ⟨mid, hm, run⟩ := Option.bind_eq_some_iff.mp run
    exact along_cons ha.1 hm (ih (ha.2 mid hm) run)

/-- What is left of a budget at the end of a run, when every step takes its cost from it. -/
theorem exec_tally {w : σ → α → Nat} {R : σ → Nat → Prop} (pay : ∀ s k a s', R s k → step s a = some s' → R s' (k + w s a))
    {s s' : σ} {k : Nat} {as : List α} (hs : R s k) (h : exec step s as = some s') : R s' (k + tally step w s as) := by
  induction as generalizing s k with
  | nil => cases Option.some.inj h; exact hs
  | cons a as ih =>
    obtain ⟨mid, hm, h⟩ := Option.bind_eq_some_iff.mp h
    have hend := ih (pay s k a mid hs hm) h
    rw [tally, hm, Option.elim_some, ← Nat.add_assoc]
    exact hend

/-- What is left pays for every step, apart from what some steps cost. -/
theorem exec_budget {I : σ → Prop} {w : σ → α → Nat} {left : σ → Nat}
    (pay : ∀ s a s', I s → step s a = some s' → I s' ∧ left s' + 1 ≤ left s + w s a)
    {s s' : σ} {as : List α} (hs : I s) (h : exec step s as = some s') :
    as.length + left s' ≤ left s + tally step w s as := by
  induction as generalizing s with
  | nil =>
    cases Option.some.inj h
    exact Nat.le_of_eq (Nat.zero_add _)
  | cons a as ih =>
    obtain ⟨mid, hmid, h⟩ := Option.bind_eq_some_iff.mp h
    obtain ⟨hi, hpay⟩ := pay s a mid hs hmid
    have hrest := ih hi h
    rw [List.length_cons, tally, hmid, Option.elim_some]
    omega

/-- A run costs nothing when each of its steps costs nothing. -/
theorem tally_eq_zero {w : σ → α → Nat} {G : σ → α → Prop} (hw : ∀ s a, w s a = 0 ↔ G s a) {s : σ} {as : List α} :
    tally step w s as = 0 ↔ Along step G s as := by
  induction as generalizing s with
  | nil => exact ⟨fun _ => trivial, fun _ => rfl⟩
  | cons a as ih =>
    rw [tally, Nat.add_eq_zero_iff, hw]
    refine and_congr_right fun _ => ?_
    cases hm : step s a with
    | none => exact ⟨fun _ s' h => (Option.some_ne_none s' h.symm).elim, fun _ => rfl⟩
    | some mid =>
      rw [Option.elim_some, ih]
      refine ⟨fun h s' hs => ?_, fun h => h mid rfl⟩
      cases Option.some.inj hs
      exact h

theorem along_append {G : σ → α → Prop} {s : σ} {as bs : List α} (h : Along step G s (as ++ bs)) :
    Along step G s as := by
  induction as generalizing s with
  | nil => exact trivial
  | cons a as ih => exact ⟨h.1, fun s' hs => ih (h.2 s' hs)⟩

theorem throughout_cons {P : σ → Prop} {s s' : σ} {a : α} {as : List α} (hs : step s a = some s') :
    Throughout step P s (a :: as) ↔ P s ∧ Throughout step P s' as := by
  constructor
  · intro h
    refine ⟨h [] s (List.nil_prefix) rfl, fun before t hpre run => ?_⟩
    refine h (a :: before) t (List.cons_prefix_cons.mpr ⟨rfl, hpre⟩) ?_
    rw [exec, hs]
    exact run
  · rintro ⟨hp, h⟩ before t hpre run
    cases before with
    | nil =>
      cases Option.some.inj run
      exact hp
    | cons b before =>
      obtain ⟨rfl, hrest⟩ := List.cons_prefix_cons.mp hpre
      rw [exec, hs] at run
      exact h before t hrest run

theorem throughout_of_along {P : σ → Prop} {s t : σ} {as : List α} (h : Along step (fun s _ => P s) s as)
    (run : exec step s as = some t) (ht : P t) : Throughout step P s as := by
  induction as generalizing s with
  | nil =>
    intro before u hpre hrun
    rw [List.prefix_nil.mp hpre] at hrun
    cases Option.some.inj hrun
    cases Option.some.inj run
    exact ht
  | cons a as ih =>
    obtain ⟨mid, hm, run⟩ := Option.bind_eq_some_iff.mp run
    exact (throughout_cons hm).mpr ⟨h.1, ih (h.2 mid hm) run⟩

/-- A property that holds after exactly the steps that meet a condition holds throughout exactly the runs whose
steps all meet it, among those whose steps meet another condition anyway. -/
theorem throughout_iff_along_under {I P : σ → Prop} {W G : σ → α → Prop} (holds : ∀ s, I s → P s)
    (keep : ∀ s a s', I s → W s a → G s a → step s a = some s' → I s')
    (fails : ∀ s a s', I s → W s a → ¬G s a → step s a = some s' → ¬P s') {s t : σ} {as : List α} (hs : I s)
    (under : Along step W s as) (run : exec step s as = some t) : Throughout step P s as ↔ Along step G s as := by
  induction as generalizing s with
  | nil =>
    refine ⟨fun _ => trivial, fun _ before u hpre hrun => ?_⟩
    rw [List.prefix_nil.mp hpre] at hrun
    cases Option.some.inj hrun
    exact holds _ hs
  | cons a as ih =>
    obtain ⟨mid, hm, run⟩ := Option.bind_eq_some_iff.mp run
    rw [throughout_cons hm]
    by_cases hg : G s a
    · rw [ih (keep s a mid hs under.1 hg hm) (under.2 mid hm) run]
      exact ⟨fun h => along_cons hg hm h.2, fun h => ⟨holds s hs, h.2 mid hm⟩⟩
    · refine ⟨fun h => absurd (h.2 [] mid List.nil_prefix rfl) (fails s a mid hs under.1 hg hm), fun h => absurd h.1 hg⟩

theorem throughout_iff_along {I P : σ → Prop} {G : σ → α → Prop} (holds : ∀ s, I s → P s)
    (keep : ∀ s a s', I s → G s a → step s a = some s' → I s')
    (fails : ∀ s a s', I s → ¬G s a → step s a = some s' → ¬P s') {s t : σ} {as : List α} (hs : I s)
    (run : exec step s as = some t) : Throughout step P s as ↔ Along step G s as :=
  throughout_iff_along_under (W := fun _ _ => True) holds (fun s a s' h _ => keep s a s' h)
    (fun s a s' h _ => fails s a s' h) hs (along_of_forall (fun _ _ _ => trivial) s) run

/-- The machine whose states are stored by `store` after every step, as fields of a fixed width are. -/
def stored (step : σ → α → Option σ) (store : σ → σ) (s : σ) (a : α) : Option σ := (step s a).map store

/-- As long as everything stays within the bound `B` in which two machines take the same steps, a run of the one is a
run of the other. -/
theorem exec_within {step' : σ → α → Option σ} {I B : σ → Prop} {G : σ → α → Prop}
    (keep : ∀ s a s', I s → G s a → step s a = some s' → I s')
    (same : ∀ s a s', I s → G s a → step' s a = some s' → B s' → step s a = some s')
    {s t : σ} {as : List α} (hs : I s) (good : Along step' G s as) (bounded : Throughout step' B s as)
    (run : exec step' s as = some t) : exec step s as = some t ∧ I t := by
  induction as generalizing s with
  | nil =>
    cases Option.some.inj run
    exact ⟨rfl, hs⟩
  | cons a as ih =>
    obtain ⟨mid, hm, run⟩ := Option.bind_eq_some_iff.mp run
    obtain ⟨_, bounded⟩ := (throughout_cons hm).mp bounded
    have hmid : B mid := bounded [] mid List.nil_prefix rfl
    have hstep := same s a mid hs good.1 hm hmid
    obtain ⟨hrun, ht⟩ := ih (keep s a mid hs good.1 hstep) (good.2 mid hm) bounded run
    exact ⟨by rw [exec, hstep]; exact hrun, ht⟩

theorem exec_stored {store : σ → σ} {I B : σ → Prop} {G : σ → α → Prop}
    (keep : ∀ s a s', I s → G s a → step s a = some s' → I s') (same : ∀ s, I s → B (store s) → store s = s)
    {s t : σ} {as : List α} (hs : I s) (good : Along (stored step store) G s as)
    (bounded : Throughout (stored step store) B s as) (run : exec (stored step store) s as = some t) :
    exec step s as = some t ∧ I t := by
  refine exec_within keep (fun s a s' hI hg hm hB => ?_) hs good bounded run
  obtain ⟨raw, hraw, hstore⟩ := Option.map_eq_some_iff.mp hm
  have heq : s' = raw := hstore.symm.trans (same raw (keep s a raw hI hg hraw) (hstore.symm ▸ hB))
  rw [heq]
  exact hraw

/-- When a step that misses a condition does damage that no later step repairs, a run is over undamaged exactly if
all its steps meet the condition. -/
theorem along_or_damaged {I B : σ → Prop} {G : σ → α → Prop} (keep : ∀ s a s', I s → G s a → step s a = some s' → I s')
    (damages : ∀ s a s', I s → ¬G s a → step s a = some s' → B s') (stays : ∀ s a s', B s → step s a = some s' → B s')
    {s t : σ} {as : List α} (hs : I s) (run : exec step s as = some t) :
    Along step G s as ∧ I t ∨ ¬Along step G s as ∧ B t := by
  induction as generalizing s with
  | nil =>
    cases Option.some.inj run
    exact Or.inl ⟨trivial, hs⟩
  | cons a as ih =>
    obtain ⟨mid, hm, run⟩ := Option.bind_eq_some_iff.mp run
    by_cases hg : G s a
    · rcases ih (keep s a mid hs hg hm) run with ⟨along, ht⟩ | ⟨along, ht⟩
      · exact Or.inl ⟨along_cons hg hm along, ht⟩
      · exact Or.inr ⟨fun h => along (h.2 mid hm), ht⟩
    · exact Or.inr ⟨fun h => hg h.1, exec_invariant stays (damages s a mid hs hg hm) run⟩

/-- A run whose steps all meet a condition goes through when no such step is stuck. -/
theorem exec_of_along {I : σ → Prop} {G : σ → α → Prop} (go : ∀ s a, I s → G s a → ∃ s', step s a = some s' ∧ I s')
    {s : σ} {as : List α} (hs : I s) (good : Along step G s as) : ∃ t, exec step s as = some t ∧ I t := by
  induction as generalizing s with
  | nil => exact ⟨s, rfl, hs⟩
  | cons a as ih =>
    obtain ⟨mid, hm, hmid⟩ := go s a hs good.1
    obtain ⟨t, run, ht⟩ := ih hmid (good.2 mid hm)
    exact ⟨t, by rw [exec, hm]; exact run, ht⟩

end Machine
