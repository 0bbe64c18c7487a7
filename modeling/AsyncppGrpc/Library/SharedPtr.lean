import AsyncppGrpc.Library.Run
import AsyncppGrpc.Library.Update
import Mathlib.Algebra.Order.BigOperators.Group.Finset

/-! A reference counted object with one root owner: the others copy the root's reference
while that is held, and whoever drops the last one destroys the object. Parametric in the
threads and the owners. -/
namespace SharedPtr
open Run
variable {τ ο : Type*}

@[ext] structure State (τ ο : Type*) where
  root : Bool
  holds : ο → Bool
  useCount : Nat
  destroyedBy : Option τ

def State.init : State τ ο := ⟨true, fun _ => false, 1, none⟩

inductive Action (τ ο : Type*) where
  | acquire (o : ο)
  | release (t : τ) (o : ο)
  | releaseRoot (t : τ)

/-- Thread `t` gives one reference back. -/
def drop (s : State τ ο) (t : τ) : State τ ο :=
  { s with
    useCount := s.useCount - 1
    destroyedBy := if s.useCount = 1 then some t else s.destroyedBy }

def Enabled (s : State τ ο) : Action τ ο → Prop
  | .acquire o => s.root = true ∧ s.holds o = false
  | .release _ o => s.holds o = true
  | .releaseRoot _ => s.root = true

instance (s : State τ ο) (a : Action τ ο) : Decidable (Enabled s a) := by
  cases a <;> unfold Enabled <;> infer_instance

section
variable [DecidableEq ο]

def next (s : State τ ο) : Action τ ο → State τ ο
  | .acquire o => { s with
      holds := Function.update s.holds o true
      useCount := s.useCount + 1 }
  | .release t o => drop { s with holds := Function.update s.holds o false } t
  | .releaseRoot t => drop { s with root := false } t

def step : State τ ο → Action τ ο → Option (State τ ο) := stepOf Enabled next

end

/-- The root lets go last. -/
def RootLast (s : State τ ο) : Action τ ο → Prop
  | .releaseRoot _ => ∀ o, s.holds o = false
  | _ => True

/-- Thread `w` drops the references of the owners, and another the root's. -/
def ReleasedBy (w : τ) (_ : State τ ο) : Action τ ο → Prop
  | .acquire _ => True
  | .release t _ => t = w
  | .releaseRoot t => t ≠ w

variable [Fintype ο]

/-- The count is the number of references held, and at zero somebody has destroyed the
object. -/
structure Counted (s : State τ ο) : Prop where
  count : s.useCount = s.root.toNat + ∑ o, (s.holds o).toNat
  destroyed : s.destroyedBy = none ↔ s.useCount ≠ 0

theorem counted_init : Counted (.init : State τ ο) := by
  constructor <;> simp [State.init]

theorem Counted.pos {s : State τ ο} (h : Counted s) {o : ο} (ho : s.holds o = true) :
    s.root.toNat + 1 ≤ s.useCount := by
  have hle := Finset.single_le_sum (f := fun p => (s.holds p).toNat) (fun _ _ => Nat.zero_le _)
    (Finset.mem_univ o)
  have hone : (s.holds o).toNat = 1 := by rw [ho]; rfl
  have hcount := h.count
  omega

theorem Counted.drop {s : State τ ο} (hpos : 0 < s.useCount)
    (hcount : s.useCount = s.root.toNat + ∑ o, (s.holds o).toNat + 1)
    (hdes : s.destroyedBy = none) (t : τ) : Counted (drop s t) where
  count := by simp only [SharedPtr.drop]; omega
  destroyed := by
    by_cases h1 : s.useCount = 1
    · simp [SharedPtr.drop, h1]
    · simp only [SharedPtr.drop, h1, if_false, hdes, true_iff]
      omega

variable [DecidableEq ο]

theorem counted_step {s s' : State τ ο} {a : Action τ ο} (h : Counted s)
    (hs : step s a = some s') : Counted s' := by
  obtain ⟨he, rfl⟩ := stepOf_eq_some.mp hs
  have hcount := h.count
  cases a with
  | acquire o =>
    have hsum := Update.sum_update Bool.toNat s.holds o true
    rw [he.2] at hsum
    have hroot : s.root.toNat = 1 := by rw [he.1]; rfl
    constructor
    · simp only [next, Bool.toNat_true, Bool.toNat_false] at hsum ⊢
      omega
    · have hdes := h.destroyed
      simp only [next, hdes]
      omega
  | release t o =>
    have ho : s.holds o = true := he
    have hpos := h.pos ho
    have hsum := Update.sum_update Bool.toNat s.holds o false
    rw [ho] at hsum
    simp only [Bool.toNat_true, Bool.toNat_false] at hsum
    refine .drop ?_ ?_ ?_ t
    · show 0 < s.useCount
      omega
    · show s.useCount = s.root.toNat + ∑ p, (Function.update s.holds o false p).toNat + 1
      omega
    · refine h.destroyed.mpr ?_
      omega
  | releaseRoot t =>
    have hroot : s.root.toNat = 1 := by rw [show s.root = true from he]; rfl
    refine .drop ?_ ?_ ?_ t
    · show 0 < s.useCount
      omega
    · show s.useCount = 0 + ∑ p, (s.holds p).toNat + 1
      omega
    · refine h.destroyed.mpr ?_
      omega

/-- The object is destroyed when nobody holds a reference, and not before. -/
theorem destroyed_iff {s : State τ ο} {as : List (Action τ ο)}
    (hr : run step .init as = some s) :
    s.destroyedBy ≠ none ↔ s.root = false ∧ ∀ o, s.holds o = false := by
  have h := inv_of_run counted_init (fun _ _ _ => counted_step) hr
  have hzero : s.destroyedBy ≠ none ↔ s.useCount = 0 := by
    rw [Ne, h.destroyed, not_not]
  rw [hzero, h.count, Nat.add_eq_zero_iff, Finset.sum_eq_zero_iff]
  simp

/-- The root has let go and the object is not, or wrongly, destroyed. -/
def Doomed (w : τ) (s : State τ ο) : Prop :=
  s.root = false ∧ (0 < s.useCount ∨ s.destroyedBy = some w)

omit [Fintype ο] in
theorem doomed_step {w : τ} {s s' : State τ ο} {a : Action τ ο} (h : Doomed w s)
    (hby : ReleasedBy w s a) (hs : step s a = some s') : Doomed w s' := by
  obtain ⟨he, rfl⟩ := stepOf_eq_some.mp hs
  obtain ⟨hroot, hcount⟩ := h
  cases a with
  | acquire o => exact absurd he.1 (by simp [hroot])
  | release t o =>
    obtain rfl : t = w := hby
    refine ⟨hroot, ?_⟩
    by_cases h1 : s.useCount = 1
    · exact .inr (by simp [next, drop, h1])
    · refine hcount.imp (fun hpos => ?_) fun hdes => by simp [next, drop, h1, hdes]
      simp only [next, drop]
      omega
  | releaseRoot t =>
    have hr : s.root = true := he
    simp [hroot] at hr

/-- While the root waits, the owners' thread never drops the last reference. -/
theorem rootLast_step {w : τ} {s s' : State τ ο} {a : Action τ ο} (h : Counted s)
    (hsafe : s.destroyedBy ≠ some w) (hwait : s.root = true ∨ ∀ o, s.holds o = false)
    (hby : ReleasedBy w s a) (hlast : RootLast s a) (hs : step s a = some s') :
    s'.destroyedBy ≠ some w ∧ (s'.root = true ∨ ∀ o, s'.holds o = false) := by
  obtain ⟨he, rfl⟩ := stepOf_eq_some.mp hs
  cases a with
  | acquire o => exact ⟨hsafe, .inl he.1⟩
  | release t o =>
    have ho : s.holds o = true := he
    have hroot : s.root = true := hwait.resolve_right fun hall => by simp [hall o] at ho
    have hpos := h.pos ho
    rw [hroot, Bool.toNat_true] at hpos
    have h1 : s.useCount ≠ 1 := by omega
    refine ⟨?_, .inl hroot⟩
    simpa [next, drop, h1] using hsafe
  | releaseRoot t =>
    have ht : t ≠ w := hby
    refine ⟨?_, .inr hlast⟩
    by_cases h1 : s.useCount = 1 <;> simp [next, drop, h1, ht, hsafe]

/-- In a run in which every reference is given back in the end, the owners' thread does not
destroy the object exactly if the root lets go last. -/
theorem not_destroyedBy_iff {w : τ} {s : State τ ο} {as : List (Action τ ο)}
    (hby : Guarded step (ReleasedBy w) .init as) (hr : run step .init as = some s)
    (hdone : s.root = false → s.useCount = 0) :
    Always step (fun s => s.destroyedBy ≠ some w) .init as ↔ Guarded step RootLast .init as := by
  constructor
  · intro hsafe
    have hcounted : Counted (.init : State τ ο) := counted_init
    generalize (State.init : State τ ο) = s₀ at *
    induction as generalizing s₀ with
    | nil => trivial
    | cons a as ih =>
      intro u hu
      obtain ⟨hbya, hby'⟩ := hby u hu
      obtain ⟨u', hu', hr'⟩ := run_cons_eq_some.mp hr
      obtain rfl : u = u' := Option.some.inj (hu.symm.trans hu')
      refine ⟨?_, ih u hby' hr' (hsafe.2 u hu) (counted_step hcounted hu)⟩
      obtain ⟨he, rfl⟩ := stepOf_eq_some.mp hu
      cases a with
      | releaseRoot t =>
        by_contra hlast
        obtain ⟨o, ho⟩ : ∃ o, s₀.holds o = true := by simpa [RootLast] using hlast
        have hroot : s₀.root = true := he
        have hpos := hcounted.pos ho
        rw [hroot, Bool.toNat_true] at hpos
        have hdoom : Doomed w (next s₀ (.releaseRoot t)) := by
          refine ⟨rfl, .inl ?_⟩
          simp only [next, drop]
          omega
        obtain ⟨hend, hcount⟩ :=
          inv_of_step hdoom (fun _ _ _ h hok hs => doomed_step h hok hs) hby' hr'
        have hzero := hdone hend
        exact (hsafe.2 _ hu).last hr' (hcount.resolve_left (by omega))
      | _ => trivial
  · intro hlast
    have hboth : Always step (fun s : State τ ο => Counted s ∧ s.destroyedBy ≠ some w ∧
        (s.root = true ∨ ∀ o, s.holds o = false)) .init as := by
      refine always_of_step ⟨counted_init, by simp [State.init], .inl rfl⟩ ?_ (hby.and hlast)
      intro s a s' h hok hs
      exact ⟨counted_step h.1 hs, rootLast_step h.1 h.2.1 h.2.2 hok.1 hok.2 hs⟩
    exact hboth.mono fun s h => h.2.1

end SharedPtr
