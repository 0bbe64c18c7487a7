import Mathlib.Data.List.Induction
import Mathlib.Logic.Function.Basic

/-! Finite runs of a partial step function, with guards on the steps.
A schedule is the list of actions; `none` means the action is not enabled. -/
namespace Run
variable {σ τ α β : Type*}

def run (step : σ → α → Option σ) : σ → List α → Option σ
  | s, [] => some s
  | s, a :: as => (step s a).bind fun s' => run step s' as

/-- The step function of a machine given by its enabling conditions and its updates. -/
def stepOf (enabled : σ → α → Prop) [∀ s a, Decidable (enabled s a)] (next : σ → α → σ)
    (s : σ) (a : α) : Option σ :=
  if enabled s a then some (next s a) else none

/-- Every step the schedule takes from `s` meets the guard in the state before it. -/
def Guarded (step : σ → α → Option σ) (ok : σ → α → Prop) : σ → List α → Prop
  | _, [] => True
  | s, a :: as => ∀ s' ∈ step s a, ok s a ∧ Guarded step ok s' as

/-- Every state the schedule passes through from `s`, both ends included, has `P`. -/
def Always (step : σ → α → Option σ) (P : σ → Prop) : σ → List α → Prop
  | s, [] => P s
  | s, a :: as => P s ∧ ∀ s' ∈ step s a, Always step P s' as

instance Guarded.decidable (step : σ → α → Option σ) (ok : σ → α → Prop)
    [∀ s a, Decidable (ok s a)] : ∀ s as, Decidable (Guarded step ok s as)
  | _, [] => isTrue trivial
  | s, a :: as =>
    have : ∀ s', Decidable (Guarded step ok s' as) := fun s' => Guarded.decidable step ok s' as
    inferInstanceAs (Decidable (∀ s' ∈ step s a, ok s a ∧ Guarded step ok s' as))

section
variable {step : σ → α → Option σ} {ok ok' : σ → α → Prop} {P Q : σ → Prop}

theorem stepOf_eq_some {enabled : σ → α → Prop} [∀ s a, Decidable (enabled s a)]
    {next : σ → α → σ} {s s' : σ} {a : α} :
    stepOf enabled next s a = some s' ↔ enabled s a ∧ s' = next s a := by
  unfold stepOf
  split <;> simp_all [eq_comm]

theorem run_single {enabled : σ → α → Prop} [∀ s a, Decidable (enabled s a)]
    {next : σ → α → σ} {s : σ} {a : α} (h : enabled s a) :
    run (stepOf enabled next) s [a] = some (next s a) := by
  simp [run, stepOf, h]

@[simp] theorem run_nil (s : σ) : run step s [] = some s := rfl

@[simp] theorem run_cons (s : σ) (a : α) (as : List α) :
    run step s (a :: as) = (step s a).bind fun s' => run step s' as := rfl

theorem run_cons_eq_some {s t : σ} {a : α} {as : List α} :
    run step s (a :: as) = some t ↔ ∃ s', step s a = some s' ∧ run step s' as = some t := by
  simp [Option.bind_eq_some_iff]

theorem run_append (s : σ) (as bs : List α) :
    run step s (as ++ bs) = (run step s as).bind fun t => run step t bs := by
  induction as generalizing s with
  | nil => rfl
  | cons a as ih =>
    simp only [List.cons_append, run_cons, Option.bind_assoc]
    congr 1
    funext s'
    exact ih s'

theorem run_concat {enabled : σ → α → Prop} [∀ s a, Decidable (enabled s a)]
    {next : σ → α → σ} {s t : σ} {as : List α} {a : α} :
    run (stepOf enabled next) s (as ++ [a]) = some t ↔
      ∃ u, run (stepOf enabled next) s as = some u ∧ enabled u a ∧ t = next u a := by
  simp [run_append, Option.bind_eq_some_iff, stepOf_eq_some]

theorem Always.head {s : σ} {as : List α} (h : Always step P s as) : P s := by
  cases as with
  | nil => exact h
  | cons a as => exact h.1

theorem Always.last {s t : σ} {as : List α} (h : Always step P s as)
    (hr : run step s as = some t) : P t := by
  induction as generalizing s with
  | nil =>
    obtain rfl : s = t := by simpa using hr
    exact h
  | cons a as ih =>
    obtain ⟨s', ha, hr'⟩ := run_cons_eq_some.mp hr
    exact ih (h.2 s' ha) hr'

theorem Always.mono {s : σ} {as : List α} (hPQ : ∀ s, P s → Q s)
    (h : Always step P s as) : Always step Q s as := by
  induction as generalizing s with
  | nil => exact hPQ s h
  | cons a as ih => exact ⟨hPQ s h.1, fun s' ha => ih (h.2 s' ha)⟩

theorem Always.and {s : σ} {as : List α} (hP : Always step P s as) (hQ : Always step Q s as) :
    Always step (fun s => P s ∧ Q s) s as := by
  induction as generalizing s with
  | nil => exact ⟨hP, hQ⟩
  | cons a as ih => exact ⟨⟨hP.1, hQ.1⟩, fun s' ha => ih (hP.2 s' ha) (hQ.2 s' ha)⟩

theorem Guarded.and {s : σ} {as : List α} (h : Guarded step ok s as)
    (h' : Guarded step ok' s as) : Guarded step (fun s a => ok s a ∧ ok' s a) s as := by
  induction as generalizing s with
  | nil => trivial
  | cons a as ih =>
    exact fun s' ha => ⟨⟨(h s' ha).1, (h' s' ha).1⟩, ih (h s' ha).2 (h' s' ha).2⟩

theorem Guarded.imp {s : σ} {as : List α} (h : Guarded step ok s as)
    (himp : ∀ s a s', ok s a → step s a = some s' → ok' s a) : Guarded step ok' s as := by
  induction as generalizing s with
  | nil => trivial
  | cons a as ih => exact fun s' ha => ⟨himp s a s' (h s' ha).1 ha, ih (h s' ha).2⟩

theorem Always.guarded {s : σ} {as : List α} (h : Always step P s as) :
    Guarded step (fun s _ => P s) s as := by
  induction as generalizing s with
  | nil => trivial
  | cons a as ih => exact fun s' ha => ⟨h.1, ih (h.2 s' ha)⟩

theorem Guarded.of_forall (h : ∀ s a, ok s a) (s : σ) (as : List α) : Guarded step ok s as := by
  induction as generalizing s with
  | nil => trivial
  | cons a as ih => exact fun s' _ => ⟨h s a, ih s'⟩

theorem Guarded.append {s : σ} {as bs : List α} (h : Guarded step ok s as)
    (h' : ∀ t, run step s as = some t → Guarded step ok t bs) : Guarded step ok s (as ++ bs) := by
  induction as generalizing s with
  | nil => exact h' s rfl
  | cons a as ih =>
    intro s' ha
    obtain ⟨hok, hg⟩ := h s' ha
    exact ⟨hok, ih hg fun t hr => h' t (run_cons_eq_some.mpr ⟨s', ha, hr⟩)⟩

theorem Guarded.of_append {s : σ} {as bs : List α} (h : Guarded step ok s (as ++ bs)) :
    Guarded step ok s as ∧ ∀ t, run step s as = some t → Guarded step ok t bs := by
  induction as generalizing s with
  | nil => exact ⟨trivial, by simpa using h⟩
  | cons a as ih =>
    refine ⟨fun s' ha => ?_, fun t hr => ?_⟩
    · obtain ⟨hok, hg⟩ := h s' ha
      exact ⟨hok, (ih hg).1⟩
    · obtain ⟨s', ha, hr'⟩ := run_cons_eq_some.mp hr
      exact (ih (h s' ha).2).2 t hr'

/-- What holds of every state a guarded run reaches holds all along every guarded run. -/
theorem always_of_guarded_run {s : σ} {as : List α}
    (h : ∀ bs t, Guarded step ok s bs → run step s bs = some t → P t)
    (hg : Guarded step ok s as) : Always step P s as := by
  induction as generalizing s with
  | nil => exact h [] s trivial rfl
  | cons a as ih =>
    refine ⟨h [] s trivial rfl, fun s' ha => ?_⟩
    obtain ⟨hok, hg'⟩ := hg s' ha
    refine ih (fun bs t hbs hr => h (a :: bs) t ?_ ?_) hg'
    · intro u hu
      obtain rfl := Option.mem_unique ha hu
      exact ⟨hok, hbs⟩
    · exact run_cons_eq_some.mpr ⟨s', ha, hr⟩

theorem always_of_run {s : σ} (h : ∀ bs t, run step s bs = some t → P t) (as : List α) :
    Always step P s as := by
  have hg : Guarded step (fun _ _ => True) s as := Guarded.of_forall (fun _ _ => trivial) s as
  exact always_of_guarded_run (fun bs t _ => h bs t) hg

/-- Induction over a guarded run: what one guarded step preserves holds all along. -/
theorem always_of_step {s : σ} {as : List α} (h0 : P s)
    (hstep : ∀ s a s', P s → ok s a → step s a = some s' → P s')
    (hg : Guarded step ok s as) : Always step P s as := by
  induction as generalizing s with
  | nil => exact h0
  | cons a as ih =>
    refine ⟨h0, fun s' ha => ?_⟩
    obtain ⟨hok, hg'⟩ := hg s' ha
    exact ih (hstep s a s' h0 hok ha) hg'

theorem inv_of_step {s t : σ} {as : List α} (h0 : P s)
    (hstep : ∀ s a s', P s → ok s a → step s a = some s' → P s')
    (hg : Guarded step ok s as) (hr : run step s as = some t) : P t :=
  (always_of_step h0 hstep hg).last hr

/-- The unguarded rules: an inductive invariant holds in every state reached. -/
theorem always_of_inv {s : σ} (h0 : P s) (hstep : ∀ s a s', P s → step s a = some s' → P s')
    (as : List α) : Always step P s as := by
  induction as generalizing s with
  | nil => exact h0
  | cons a as ih => exact ⟨h0, fun s' ha => ih (hstep s a s' h0 ha)⟩

theorem inv_of_run {s t : σ} {as : List α} (h0 : P s)
    (hstep : ∀ s a s', P s → step s a = some s' → P s')
    (hr : run step s as = some t) : P t :=
  (always_of_inv h0 hstep as).last hr

/-- Backwards: what every step hands back to its source holds all along if it holds in the
end. -/
theorem always_of_last {s t : σ} {as : List α} (hP : Always step P s as)
    (hstep : ∀ s a s', P s → step s a = some s' → Q s' → Q s)
    (hr : run step s as = some t) (ht : Q t) : Always step Q s as := by
  induction as generalizing s with
  | nil =>
    obtain rfl : s = t := by simpa using hr
    exact ht
  | cons a as ih =>
    obtain ⟨u, ha, hr'⟩ := run_cons_eq_some.mp hr
    have hu := ih (hP.2 u ha) hr'
    refine ⟨hstep s a u hP.1 ha hu.head, fun s' ha' => ?_⟩
    obtain rfl : u = s' := by simpa [ha] using ha'
    exact hu

/-- A flag that a step raises exactly when it fails the guard, and that is never cleared, is
up after a run exactly if it was up before or some step of the run failed the guard. -/
theorem raised_iff {flag : σ → Bool} {s t : σ} {as : List α} (hP : Always step P s as)
    (hstep : ∀ s a s', P s → P s' → step s a = some s' →
      (flag s' = true ↔ flag s = true ∨ ¬ok s a))
    (hr : run step s as = some t) :
    flag t = true ↔ flag s = true ∨ ¬Guarded step ok s as := by
  induction as generalizing s with
  | nil =>
    obtain rfl : s = t := by simpa using hr
    simp [Guarded]
  | cons a as ih =>
    obtain ⟨u, ha, hr'⟩ := run_cons_eq_some.mp hr
    rw [ih (hP.2 u ha) hr', hstep s a u hP.1 (hP.2 u ha).head ha]
    simp only [Guarded, ha, Option.mem_some_iff, forall_eq']
    rw [not_and_or, or_assoc]

/-- The step of a completed run that fails the guard, and the state it is taken in. -/
theorem not_guarded_iff {s t : σ} {as : List α} (hr : run step s as = some t) :
    ¬Guarded step ok s as ↔
      ∃ bs a cs u, as = bs ++ a :: cs ∧ run step s bs = some u ∧ ¬ok u a := by
  induction as generalizing s with
  | nil => simp [Guarded]
  | cons a as ih =>
    obtain ⟨v, ha, hr'⟩ := run_cons_eq_some.mp hr
    simp only [Guarded, ha, Option.mem_some_iff, forall_eq', not_and_or, ih hr']
    constructor
    · intro h
      rcases h with hok | ⟨bs, b, cs, u, rfl, hu, hok⟩
      · exact ⟨[], a, as, s, rfl, rfl, hok⟩
      · exact ⟨a :: bs, b, cs, u, rfl, run_cons_eq_some.mpr ⟨v, ha, hu⟩, hok⟩
    · intro ⟨bs, b, cs, u, has, hu, hok⟩
      cases bs with
      | nil =>
        obtain ⟨rfl, rfl⟩ : a = b ∧ as = cs := by simpa using has
        obtain rfl : s = u := by simpa using hu
        exact .inl hok
      | cons c bs =>
        obtain ⟨rfl, rfl⟩ : a = c ∧ as = bs ++ b :: cs := by simpa using has
        obtain ⟨w, hw, hu'⟩ := run_cons_eq_some.mp hu
        obtain rfl : v = w := by simpa [ha] using hw
        exact .inr ⟨bs, b, cs, u, rfl, hu', hok⟩

/-- An inductive invariant that also speaks about the actions taken so far. -/
theorem log_of_run {I : σ → List α → Prop} {s t : σ} {as : List α} (h0 : I s [])
    (hstep : ∀ s bs a s', I s bs → step s a = some s' → I s' (bs ++ [a]))
    (hr : run step s as = some t) : I t as := by
  induction as using List.reverseRecOn generalizing t with
  | nil =>
    obtain rfl : s = t := by simpa using hr
    exact h0
  | append_singleton bs a ih =>
    rw [run_append] at hr
    obtain ⟨u, hu, hr'⟩ := Option.bind_eq_some_iff.mp hr
    obtain ⟨v, hv, hr''⟩ := run_cons_eq_some.mp hr'
    obtain rfl : v = t := by simpa using hr''
    exact hstep u bs a v (ih hu) hv

/-- An exact guard. If, from a state with the invariant `I` and the property `P`, a step
of the environment `env` leads to `P` precisely when it meets the guard, then `P` holds all
along a run precisely when every step of the run meets the guard. -/
theorem always_iff_guarded {I : σ → Prop} {env : σ → α → Prop} {s : σ} {as : List α}
    (hI0 : I s) (h0 : P s)
    (hI : ∀ s a s', I s → P s → env s a → step s a = some s' → I s')
    (hP : ∀ s a s', I s → P s → env s a → step s a = some s' → (P s' ↔ ok s a))
    (henv : Guarded step env s as) :
    Always step P s as ↔ Guarded step ok s as := by
  induction as generalizing s with
  | nil => exact ⟨fun _ => trivial, fun _ => h0⟩
  | cons a as ih =>
    cases ha : step s a with
    | none => simp [Always, Guarded, ha, h0]
    | some s' =>
      obtain ⟨henva, henv'⟩ := henv s' ha
      have hex := hP s a s' hI0 h0 henva ha
      have hI' := hI s a s' hI0 h0 henva ha
      simp only [Always, Guarded, ha, Option.mem_some_iff, forall_eq', h0, true_and]
      constructor
      · intro h
        exact ⟨hex.mp h.head, (ih hI' h.head henv').mp h⟩
      · intro h
        exact (ih hI' (hex.mpr h.1) henv').mpr h.2

/-- The exact guard of a property that no environment has to help. -/
theorem always_iff_guarded_of_inv {I : σ → Prop} {s : σ} (hI0 : I s) (h0 : P s)
    (hI : ∀ s a s', I s → step s a = some s' → I s')
    (hP : ∀ s a s', I s → P s → step s a = some s' → (P s' ↔ ok s a)) (as : List α) :
    Always step P s as ↔ Guarded step ok s as := by
  have henv : Guarded step (fun _ _ => True) s as := Guarded.of_forall (fun _ _ => trivial) s as
  exact always_iff_guarded hI0 h0 (fun s a s' h _ _ => hI s a s' h)
    (fun s a s' h hp _ => hP s a s' h hp) henv
end

section
variable {step : σ → α → Option σ} {astep : τ → β → Option τ} {R : σ → τ → Prop}
  {label : σ → α → List β}

/-- Forward simulation: when every step is matched by the abstract actions `label` names
for it, every run is matched by an abstract run. -/
theorem run_refines
    (hstep : ∀ s t a s', R s t → step s a = some s' →
      ∃ t', run astep t (label s a) = some t' ∧ R s' t')
    {s s' : σ} {t : τ} {as : List α} (hR : R s t) (hr : run step s as = some s') :
    ∃ bs t', run astep t bs = some t' ∧ R s' t' := by
  induction as generalizing s t with
  | nil =>
    obtain rfl : s = s' := by simpa using hr
    exact ⟨[], t, rfl, hR⟩
  | cons a as ih =>
    obtain ⟨u, ha, hr'⟩ := run_cons_eq_some.mp hr
    obtain ⟨v, hv, hRv⟩ := hstep s t a u hR ha
    obtain ⟨bs, t', hbs, hR'⟩ := ih hRv hr'
    exact ⟨label s a ++ bs, t', by rw [run_append, hv]; exact hbs, hR'⟩
end

section
variable {step : σ → α → Option σ} {astep : τ → β → Option τ} {view : σ → τ}
  {label : σ → α → Option β} {P : τ → Prop} {ok : τ → β → Prop}

/-- The abstract actions the steps a schedule takes stand for, at most one each. -/
def labels (step : σ → α → Option σ) (label : σ → α → Option β) : σ → List α → List β
  | _, [] => []
  | s, a :: as => match step s a with
    | none => []
    | some s' => (label s a).toList ++ labels step label s' as

/-- `t` becomes `t'` by the given action, or by none. -/
def Becomes (astep : τ → β → Option τ) (t t' : τ) : Option β → Prop
  | none => t' = t
  | some b => astep t b = some t'

/-- Every step is the abstract action of its label, or invisible. -/
def Views (step : σ → α → Option σ) (astep : τ → β → Option τ) (view : σ → τ)
    (label : σ → α → Option β) : Prop :=
  ∀ s a s', step s a = some s' → Becomes astep (view s) (view s') (label s a)

theorem labels_cons {s s' : σ} {a : α} (ha : step s a = some s') (as : List α) :
    labels step label s (a :: as) = (label s a).toList ++ labels step label s' as := by
  simp [labels, ha]

/-- What the actions of a completed run stand for whatever state they are taken in. -/
theorem labels_of_run {f : α → Option β} {s t : σ} {as : List α} (hr : run step s as = some t) :
    labels step (fun _ a => f a) s as = as.filterMap f := by
  induction as generalizing s with
  | nil => rfl
  | cons a as ih =>
    obtain ⟨u, ha, hr'⟩ := run_cons_eq_some.mp hr
    rw [labels_cons ha, ih hr']
    cases hf : f a <;> simp [hf]

/-- What somebody makes of the abstract actions of a completed run. -/
theorem filterMap_labels {γ : Type*} {f : β → Option γ} {g : α → Option γ}
    (h : ∀ s a, (label s a).bind f = g a) {s t : σ} {as : List α}
    (hr : run step s as = some t) : (labels step label s as).filterMap f = as.filterMap g := by
  induction as generalizing s with
  | nil => rfl
  | cons a as ih =>
    obtain ⟨u, ha, hr'⟩ := run_cons_eq_some.mp hr
    rw [labels_cons ha, List.filterMap_append, ih hr', List.filterMap_cons, ← h s a]
    cases hl : label s a with
    | none => simp
    | some b => cases hf : f b <;> simp [hf]

/-- An inductive invariant that also speaks about what the steps so far stood for. -/
theorem inv_of_labels {I : σ → List β → Prop} {grd : σ → α → Prop} {s t : σ} {as : List α}
    (h0 : I s [])
    (hstep : ∀ s bs a s', I s bs → grd s a → step s a = some s' →
      I s' (bs ++ (label s a).toList))
    (hg : Guarded step grd s as) (hr : run step s as = some t) :
    I t (labels step label s as) := by
  have hgen : ∀ hist, I s hist → I t (hist ++ labels step label s as) := by
    clear h0
    induction as generalizing s with
    | nil =>
      obtain rfl : s = t := by simpa using hr
      simp [labels]
    | cons a as ih =>
      intro hist h
      obtain ⟨u, ha, hr'⟩ := run_cons_eq_some.mp hr
      obtain ⟨hok, hg'⟩ := hg u ha
      rw [labels_cons ha, ← List.append_assoc]
      exact ih hg' hr' _ (hstep s hist a u h hok ha)
  simpa using hgen [] h0

/-- A view of the states with an invariant. -/
theorem run_labels_of_inv {I : σ → Prop} (hI : ∀ s a s', I s → step s a = some s' → I s')
    (hview : ∀ s a s', I s → step s a = some s' → Becomes astep (view s) (view s') (label s a))
    {s t : σ} {as : List α} (h : I s) (hr : run step s as = some t) :
    run astep (view s) (labels step label s as) = some (view t) := by
  induction as generalizing s with
  | nil =>
    obtain rfl : s = t := by simpa using hr
    rfl
  | cons a as ih =>
    obtain ⟨u, ha, hr'⟩ := run_cons_eq_some.mp hr
    have hbecomes := hview s a u h ha
    have hrun := ih (hI s a u h ha) hr'
    cases hl : label s a <;> simp_all [labels, Becomes]

theorem run_labels (h : Views step astep view label) {s t : σ} {as : List α}
    (hr : run step s as = some t) :
    run astep (view s) (labels step label s as) = some (view t) :=
  run_labels_of_inv (fun _ _ _ _ _ => trivial) (fun s a s' (_ : True) => h s a s') trivial hr

/-- An exact contract. If a step from a state with the invariant is the abstract action of its
label when it meets the guard, and its label is refused when it does not, then what a run
stands for is an abstract run exactly if every step meets the guard. -/
theorem run_labels_iff {I : σ → Prop} {grd : σ → α → Prop}
    (hI : ∀ s a s', I s → step s a = some s' → I s')
    (hview : ∀ s a s', I s → grd s a → step s a = some s' →
      Becomes astep (view s) (view s') (label s a))
    (hrefused : ∀ s a s', I s → ¬grd s a → step s a = some s' →
      ∃ b, label s a = some b ∧ astep (view s) b = none)
    {s t : σ} {as : List α} (h : I s) (hr : run step s as = some t) :
    run astep (view s) (labels step label s as) = some (view t) ↔ Guarded step grd s as := by
  induction as generalizing s with
  | nil =>
    obtain rfl : s = t := by simpa using hr
    exact iff_of_true rfl trivial
  | cons a as ih =>
    obtain ⟨u, ha, hr'⟩ := run_cons_eq_some.mp hr
    have hrest := ih (hI s a u h ha) hr'
    rw [labels_cons ha, run_append]
    simp only [Guarded, ha, Option.mem_some_iff, forall_eq']
    by_cases hg : grd s a
    · have hbecomes := hview s a u h hg ha
      rw [and_iff_right hg, ← hrest]
      cases hl : label s a with
      | none =>
        rw [hl, Becomes] at hbecomes
        simp [hbecomes]
      | some b =>
        rw [hl, Becomes] at hbecomes
        simp [hbecomes]
    · obtain ⟨b, hl, hb⟩ := hrefused s a u h hg ha
      simp [hl, hb, hg]

/-- Forward simulation along a relation, by at most one abstract action a step. -/
theorem exists_run_labels {R : σ → τ → Prop} {grd : σ → α → Prop} {s s' : σ} {t : τ}
    {as : List α} (h0 : R s t)
    (hstep : ∀ s t a s', R s t → grd s a → step s a = some s' →
      ∃ t', Becomes astep t t' (label s a) ∧ R s' t')
    (hg : Guarded step grd s as) (hr : run step s as = some s') :
    ∃ t', run astep t (labels step label s as) = some t' ∧ R s' t' := by
  apply inv_of_labels (I := fun s bs => ∃ t', run astep t bs = some t' ∧ R s t') _ _ hg hr
  · exact ⟨t, rfl, h0⟩
  · intro s bs a s' h hgrd hs
    obtain ⟨u, hu, hR⟩ := h
    obtain ⟨v, hv, hR'⟩ := hstep s u a s' hR hgrd hs
    refine ⟨v, ?_, hR'⟩
    rw [run_append, hu]
    cases hl : label s a with
    | none =>
      rw [hl, Becomes] at hv
      simp [hv]
    | some b =>
      rw [hl, Becomes] at hv
      simp [hv]

theorem always_labels (h : Views step astep view label) (s : σ) (as : List α) :
    Always astep P (view s) (labels step label s as) ↔
      Always step (fun s => P (view s)) s as := by
  induction as generalizing s with
  | nil => exact Iff.rfl
  | cons a as ih =>
    cases ha : step s a with
    | none => simp [labels, Always, ha]
    | some u =>
      have hview := h s a u ha
      have hrun := ih u
      cases hl : label s a with
      | none =>
        rw [hl, Becomes] at hview
        simp only [labels, ha, hl, Option.toList_none, List.nil_append, Always,
          Option.mem_some_iff, forall_eq']
        rw [← hview, hrun]
        exact ⟨fun hP => ⟨hP.head, hP⟩, fun hP => hP.2⟩
      | some b =>
        rw [hl, Becomes] at hview
        simp only [labels, ha, hl, Option.toList_some, List.singleton_append, Always, hview,
          Option.mem_some_iff, forall_eq', hrun]

theorem guarded_labels_of_inv {I : σ → Prop} (hI : ∀ s a s', I s → step s a = some s' → I s')
    (hview : ∀ s a s', I s → step s a = some s' → Becomes astep (view s) (view s') (label s a))
    {s : σ} (h : I s) (as : List α) :
    Guarded astep ok (view s) (labels step label s as) ↔
      Guarded step (fun s a => ∀ b ∈ label s a, ok (view s) b) s as := by
  induction as generalizing s with
  | nil => exact Iff.rfl
  | cons a as ih =>
    cases ha : step s a with
    | none => simp [labels, Guarded, ha]
    | some u =>
      have hbecomes := hview s a u h ha
      have hrun := ih (hI s a u h ha)
      cases hl : label s a <;> simp_all [labels, Guarded, Becomes]

theorem guarded_labels (h : Views step astep view label) (s : σ) (as : List α) :
    Guarded astep ok (view s) (labels step label s as) ↔
      Guarded step (fun s a => ∀ b ∈ label s a, ok (view s) b) s as :=
  guarded_labels_of_inv (fun _ _ _ _ _ => trivial) (fun s a s' (_ : True) => h s a s') trivial as
end

end Run
