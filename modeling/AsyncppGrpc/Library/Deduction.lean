import Mathlib.Data.Fintype.Basic
import Mathlib.Logic.Function.Basic

/-! Template argument deduction: terms with parameters are matched against closed terms, and a
table of patterns selects by the one that matches. -/
namespace Deduction
variable {κ ν μ β : Type*}

/-- Constructors `κ` applied to terms, with parameters `ν` at the leaves. -/
inductive Term (κ ν : Type*) where
  | con (c : κ)
  | app (f a : Term κ ν)
  | param (v : ν)
  deriving DecidableEq

def Term.subst (args : ν → Term κ μ) : Term κ ν → Term κ μ
  | .con c => .con c
  | .app f a => .app (f.subst args) (a.subst args)
  | .param v => args v

def Term.params : Term κ ν → List ν
  | .con _ => []
  | .app f a => f.params ++ a.params
  | .param v => [v]

/-- The arguments are those found so far. -/
def Agrees (found : ν → Option (Term κ μ)) (args : ν → Term κ μ) : Prop :=
  ∀ v u, found v = some u → args v = u

/-- The two patterns differ in a constructor where neither has a parameter. -/
def Term.clash [DecidableEq κ] : Term κ ν → Term κ ν → Bool
  | .con c, .con d => c ≠ d
  | .app f a, .app g b => f.clash g || a.clash b
  | .con _, .app _ _ | .app _ _, .con _ => true
  | _, _ => false

/-- Patterns that clash match no common term. -/
theorem subst_ne_of_clash [DecidableEq κ] {p q : Term κ ν} (h : p.clash q = true)
    (args args' : ν → Term κ μ) : p.subst args ≠ q.subst args' := by
  induction p generalizing q with
  | con c => cases q <;> simp_all [Term.clash, Term.subst]
  | app f a ihf iha =>
    cases q with
    | con c => simp [Term.subst]
    | app g b =>
      intro heq
      simp only [Term.subst, Term.app.injEq] at heq
      rcases Bool.or_eq_true_iff.mp h with hf | ha
      · exact ihf hf heq.1
      · exact iha ha heq.2
    | param v => simp [Term.clash] at h
  | param v => cases q <;> simp [Term.clash] at h

theorem agrees_update [DecidableEq ν] {found : ν → Option (Term κ μ)} {v : ν} (hv : found v = none)
    (t : Term κ μ) (args : ν → Term κ μ) :
    Agrees (Function.update found v (some t)) args ↔ Agrees found args ∧ args v = t := by
  constructor
  · intro h
    refine ⟨fun w u hw => h w u ?_, h v t (by simp)⟩
    have hwv : w ≠ v := by
      intro heq
      simp [heq, hv] at hw
    simpa [hwv] using hw
  · intro ⟨h, ht⟩ w u hw
    by_cases hwv : w = v
    · subst w
      simpa [ht] using hw
    · exact h w u (by simpa [hwv] using hw)

section
variable [DecidableEq κ] [DecidableEq ν] [DecidableEq μ]

/-- The arguments found so far extended so that the pattern becomes the term; a parameter that
occurs twice has to stand for the same term. -/
def Term.deduce : Term κ ν → Term κ μ → (ν → Option (Term κ μ)) → Option (ν → Option (Term κ μ))
  | .con c, t, found => if t = .con c then some found else none
  | .app f a, .app t u, found => (f.deduce t found).bind (a.deduce u)
  | .app _ _, _, _ => none
  | .param v, t, found => match found v with
    | none => some (Function.update found v (some t))
    | some u => if u = t then some found else none

/-- Deduction finds what all solutions have in common, and fails if there is none. -/
theorem deduce_iff (p : Term κ ν) (t : Term κ μ) (found : ν → Option (Term κ μ))
    (args : ν → Term κ μ) : (∃ found' ∈ p.deduce t found, Agrees found' args) ↔
      Agrees found args ∧ p.subst args = t := by
  induction p generalizing t found with
  | con c =>
    by_cases ht : t = .con c
    · simp [Term.deduce, Term.subst, ht]
    · simp [Term.deduce, Term.subst, ht, Ne.symm ht]
  | app f a ihf iha =>
    cases t with
    | con d => simp [Term.deduce, Term.subst]
    | param w => simp [Term.deduce, Term.subst]
    | app t u =>
      have hrest : ∀ found', (∃ found'' ∈ a.deduce u found', Agrees found'' args) ↔
          Agrees found' args ∧ a.subst args = u := iha u
      have hbind : (∃ found'' ∈ (f.deduce t found).bind (a.deduce u), Agrees found'' args) ↔
          ∃ found' ∈ f.deduce t found, ∃ found'' ∈ a.deduce u found', Agrees found'' args := by
        cases f.deduce t found <;> simp
      have hfirst := ihf t found
      simp only [Term.deduce, Term.subst, Term.app.injEq, hbind, hrest]
      rw [← and_assoc, ← hfirst]
      simp only [← and_assoc, exists_and_right]
  | param v =>
    cases hv : found v with
    | none => simp [Term.deduce, Term.subst, hv, agrees_update hv]
    | some u =>
      by_cases hu : u = t
      · subst u
        simp only [Term.deduce, Term.subst, hv, if_true, Option.mem_some_iff, exists_eq_left']
        exact ⟨fun h => ⟨h, h v t hv⟩, fun h => h.1⟩
      · simp only [Term.deduce, Term.subst, hv, if_neg hu]
        refine iff_of_false (by simp) ?_
        intro ⟨h, ht⟩
        exact hu ((h v u hv).symm.trans ht)

/-- After a deduction the parameters of the pattern are known. -/
theorem isSome_of_deduce {p : Term κ ν} {t : Term κ μ} {found found' : ν → Option (Term κ μ)}
    (h : p.deduce t found = some found') (v : ν) :
    (found' v).isSome = true ↔ (found v).isSome = true ∨ v ∈ p.params := by
  induction p generalizing t found found' with
  | con c =>
    by_cases ht : t = .con c
    · obtain rfl : found = found' := by simpa [Term.deduce, ht] using h
      simp [Term.params]
    · simp [Term.deduce, ht] at h
  | app f a ihf iha =>
    cases t with
    | con d => simp [Term.deduce] at h
    | param w => simp [Term.deduce] at h
    | app t u =>
      obtain ⟨mid, hf, ha⟩ := Option.bind_eq_some_iff.mp h
      rw [iha ha, ihf hf, Term.params, List.mem_append, or_assoc]
  | param w =>
    cases hw : found w with
    | none =>
      obtain rfl : Function.update found w (some t) = found' := by
        simpa [Term.deduce, hw] using h
      by_cases hvw : v = w <;> simp [hvw, Term.params]
    | some u =>
      by_cases hu : u = t
      · obtain rfl : found = found' := by simpa [Term.deduce, hw, hu] using h
        by_cases hvw : v = w
        · simp [hvw, hw]
        · simp [hvw, Term.params]
      · simp [Term.deduce, hw, hu] at h

variable [Fintype ν]

/-- The arguments of a pattern that matches, if it determines all of them. -/
def Term.deduceAll (p : Term κ ν) (t : Term κ μ) : Option (ν → Term κ μ) :=
  (p.deduce t fun _ => none).bind fun found =>
    if h : ∀ v, (found v).isSome = true then some fun v => (found v).get (h v) else none

theorem deduceAll_iff {p : Term κ ν} (hp : ∀ v, v ∈ p.params) {t : Term κ μ}
    {args : ν → Term κ μ} : p.deduceAll t = some args ↔ p.subst args = t := by
  have hiff := deduce_iff p t (fun _ => none) args
  rw [and_iff_right (by simp [Agrees])] at hiff
  rw [← hiff, Term.deduceAll]
  cases hd : p.deduce t fun _ => none with
  | none => simp
  | some found =>
    have hall : ∀ v, (found v).isSome = true := fun v => (isSome_of_deduce hd v).mpr (.inr (hp v))
    simp only [Option.bind_some, dif_pos hall, Option.some.injEq, Option.mem_some_iff,
      exists_eq_left']
    constructor
    · intro heq
      subst heq
      intro v u hv
      simp [hv]
    · intro h
      funext v
      obtain ⟨u, hu⟩ := Option.isSome_iff_exists.mp (hall v)
      simp [hu, h v u hu]

/-- The entries whose pattern matches, with the arguments. -/
def candidates (specs : List (Term κ ν × β)) (t : Term κ μ) : List (β × (ν → Term κ μ)) :=
  specs.filterMap fun s => (s.1.deduceAll t).map fun args => (s.2, args)

/-- The entry that is selected, if there is one and no other. -/
def select (specs : List (Term κ ν × β)) (t : Term κ μ) : Option (β × (ν → Term κ μ)) :=
  match candidates specs t with
  | [c] => some c
  | _ => none

theorem mem_candidates {specs : List (Term κ ν × β)} (hp : ∀ s ∈ specs, ∀ v, v ∈ s.1.params)
    {t : Term κ μ} {c : β × (ν → Term κ μ)} :
    c ∈ candidates specs t ↔ ∃ p, (p, c.1) ∈ specs ∧ p.subst c.2 = t := by
  simp only [candidates, List.mem_filterMap, Option.map_eq_some_iff]
  constructor
  · intro ⟨s, hs, args, hargs, hc⟩
    subst hc
    exact ⟨s.1, hs, (deduceAll_iff (hp s hs)).mp hargs⟩
  · intro ⟨p, hs, hargs⟩
    exact ⟨(p, c.1), hs, c.2, (deduceAll_iff (hp _ hs)).mpr hargs, rfl⟩

/-- A table whose patterns clash is never ambiguous. -/
theorem candidates_le_one {specs : List (Term κ ν × β)}
    (hp : ∀ s ∈ specs, ∀ v, v ∈ s.1.params)
    (hclash : specs.Pairwise fun r s => r.1.clash s.1 = true) (t : Term κ μ) :
    (candidates specs t).length ≤ 1 := by
  induction specs with
  | nil => exact Nat.zero_le _
  | cons s specs ih =>
    have hps : ∀ r ∈ specs, ∀ v, v ∈ r.1.params := fun r hr => hp r (List.mem_cons_of_mem _ hr)
    obtain ⟨hs, hrest⟩ := List.pairwise_cons.mp hclash
    cases hd : s.1.deduceAll t with
    | none =>
      have hsame : candidates (s :: specs) t = candidates specs t := by simp [candidates, hd]
      rw [hsame]
      exact ih hps hrest
    | some args =>
      have hnone : candidates specs t = [] := by
        refine List.eq_nil_iff_forall_not_mem.mpr fun c hc => ?_
        obtain ⟨q, hq, ht⟩ := (mem_candidates hps).mp hc
        have hmine := (deduceAll_iff (hp s List.mem_cons_self)).mp hd
        exact subst_ne_of_clash (hs _ hq) args c.2 (hmine.trans ht.symm)
      have hone : candidates (s :: specs) t = (s.2, args) :: candidates specs t := by
        simp [candidates, hd]
      simp [hone, hnone]

/-- In such a table an entry is selected exactly if its pattern becomes the term. -/
theorem select_iff {specs : List (Term κ ν × β)} (hp : ∀ s ∈ specs, ∀ v, v ∈ s.1.params)
    (hclash : specs.Pairwise fun r s => r.1.clash s.1 = true) {t : Term κ μ}
    {c : β × (ν → Term κ μ)} :
    select specs t = some c ↔ ∃ p, (p, c.1) ∈ specs ∧ p.subst c.2 = t := by
  rw [← mem_candidates hp, select]
  have hle := candidates_le_one hp hclash t
  match candidates specs t, hle with
  | [], _ => simp
  | [d], _ => simp [eq_comm]

end
end Deduction
