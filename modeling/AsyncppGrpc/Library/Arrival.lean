import Mathlib.Data.Fintype.Card

/-! Parties that count themselves in with a fetch-and-add, the last of which acts. -/
namespace Arrival
variable {ι : Type*}

/-- `decide old`: the party has got `old` from the counter and not yet looked at it. -/
inductive Pc where
  | before
  | decide (old : Nat)
  | act
  | after
  deriving DecidableEq

/-- `arrived` and `acted` are histories. -/
structure State (ι : Type*) where
  counter : Nat
  pc : ι → Pc
  arrived : List ι
  acted : List ι

def State.init : State ι := ⟨0, fun _ => .before, [], []⟩

inductive Action (ι : Type*) where
  | arrive (i : ι)
  | decide (i : ι)
  | act (i : ι)

def Enabled (s : State ι) : Action ι → Prop
  | .arrive i => s.pc i = .before
  | .decide i => ∃ old, s.pc i = .decide old
  | .act i => s.pc i = .act

variable [Fintype ι] [DecidableEq ι]

def next (s : State ι) : Action ι → State ι
  | .arrive i => { s with
      counter := s.counter + 1
      pc := Function.update s.pc i (.decide s.counter)
      arrived := s.arrived ++ [i] }
  | .decide i => match s.pc i with
    | .decide old => { s with
        pc := Function.update s.pc i (if old + 1 = Fintype.card ι then .act else .after) }
    | _ => s
  | .act i => { s with
      pc := Function.update s.pc i .after
      acted := s.acted ++ [i] }

/-- Where the party is that has made the counter full. -/
def LastPc (s : State ι) (i : ι) : Prop :=
  (s.pc i = .decide (Fintype.card ι - 1) ∨ s.pc i = .act) ∧ s.acted = [] ∨
    s.pc i = .after ∧ s.acted = [i]

structure Inv (s : State ι) : Prop where
  counter : s.counter = s.arrived.length
  nodup : s.arrived.Nodup
  arrived : ∀ i, i ∈ s.arrived ↔ s.pc i ≠ .before
  decide : ∀ i old, s.pc i = .decide old → s.arrived[old]? = some i
  act : ∀ i, s.pc i = .act → s.arrived[Fintype.card ι - 1]? = some i
  notFull : s.arrived.length < Fintype.card ι → s.acted = []
  last : ∀ i, s.arrived[Fintype.card ι - 1]? = some i → LastPc s i

omit [DecidableEq ι] in
theorem inv_init : Inv (.init : State ι) := by
  constructor <;> simp [State.init]

omit [DecidableEq ι] in
theorem length_lt_card {l : List ι} (hn : l.Nodup) {i : ι} (hi : i ∉ l) :
    l.length < Fintype.card ι := by
  have hcons := (List.nodup_cons.mpr ⟨hi, hn⟩).length_le_card
  rw [List.length_cons] at hcons
  omega

theorem Inv.arrive {s : State ι} (h : Inv s) {i : ι} (he : Enabled s (.arrive i)) :
    Inv (next s (.arrive i)) := by
  have hbefore : s.pc i = .before := he
  have hnot : i ∉ s.arrived := by simp [h.arrived, hbefore]
  have hlt := length_lt_card h.nodup hnot
  have hacted := h.notFull hlt
  constructor
  · simp [next, h.counter]
  · simpa [next] using (List.nodup_concat _ _).mpr ⟨hnot, h.nodup⟩
  · intro j
    by_cases hji : j = i
    · simp [next, hji]
    · simpa [next, hji] using h.arrived j
  · intro j old hj
    by_cases hji : j = i
    · subst j
      obtain rfl : s.counter = old := by simpa [next] using hj
      simp [next, h.counter]
    · have hold := h.decide j old (by simpa [next, hji] using hj)
      have hlen := (List.getElem?_eq_some_iff.mp hold).1
      simpa [next, List.getElem?_append_left hlen] using hold
  · intro j hj
    by_cases hji : j = i
    · subst j
      simp [next] at hj
    · have hold := h.act j (by simpa [next, hji] using hj)
      have hlen := (List.getElem?_eq_some_iff.mp hold).1
      omega
  · intro _
    exact hacted
  · intro j hj
    have hlen : s.arrived.length = Fintype.card ι - 1 := by
      have hlen := (List.getElem?_eq_some_iff.mp hj).1
      simp only [next, List.length_append, List.length_singleton] at hlen
      omega
    obtain rfl : i = j := by simpa [next, ← hlen] using hj
    refine .inl ⟨.inl ?_, hacted⟩
    simp [next, h.counter, hlen]

theorem Inv.decides {s : State ι} (h : Inv s) {i : ι} (he : Enabled s (.decide i)) :
    Inv (next s (.decide i)) := by
  obtain ⟨old, hold⟩ := he
  have hat := h.decide i old hold
  have hlen := (List.getElem?_eq_some_iff.mp hat).1
  have hle := h.nodup.length_le_card
  constructor
  · simpa [next, hold] using h.counter
  · simpa [next, hold] using h.nodup
  · intro j
    by_cases hji : j = i
    · subst j
      have hmem : i ∈ s.arrived := (h.arrived i).mpr (by simp [hold])
      simp only [next, hold, Function.update_self]
      split <;> simp [hmem]
    · simpa [next, hold, hji] using h.arrived j
  · intro j old' hj
    by_cases hji : j = i
    · subst j
      simp only [next, hold, Function.update_self] at hj
      split at hj <;> simp at hj
    · simpa [next, hold] using h.decide j old' (by simpa [next, hold, hji] using hj)
  · intro j hj
    by_cases hji : j = i
    · subst j
      by_cases hfull : old + 1 = Fintype.card ι
      · simpa [next, hold, ← hfull] using hat
      · simp [next, hold, hfull] at hj
    · simpa [next, hold] using h.act j (by simpa [next, hold, hji] using hj)
  · simpa [next, hold] using h.notFull
  · intro j hj
    have hlast := h.last j (by simpa [next, hold] using hj)
    have hj' : s.arrived[Fintype.card ι - 1]? = some j := by simpa [next, hold] using hj
    by_cases hji : j = i
    · subst j
      have hpos : old = Fintype.card ι - 1 :=
        (List.getElem?_inj hlen h.nodup).mp (hat.trans hj'.symm)
      have hfull : old + 1 = Fintype.card ι := by omega
      have hacted : s.acted = [] := by simpa [LastPc, hold, ← hpos] using hlast
      simp [LastPc, next, hold, hfull, hacted]
    · simpa [LastPc, next, hold, hji] using hlast

theorem Inv.acts {s : State ι} (h : Inv s) {i : ι} (he : Enabled s (.act i)) :
    Inv (next s (.act i)) := by
  have hact : s.pc i = .act := he
  have hat := h.act i hact
  have hlen := (List.getElem?_eq_some_iff.mp hat).1
  have hacted : s.acted = [] := by simpa [LastPc, hact] using h.last i hat
  constructor
  · exact h.counter
  · exact h.nodup
  · intro j
    by_cases hji : j = i
    · subst j
      have hmem : i ∈ s.arrived := (h.arrived i).mpr (by simp [hact])
      simp [next, hmem]
    · simpa [next, hji] using h.arrived j
  · intro j old hj
    by_cases hji : j = i
    · subst j
      simp [next] at hj
    · exact h.decide j old (by simpa [next, hji] using hj)
  · intro j hj
    by_cases hji : j = i
    · subst j
      exact hat
    · exact h.act j (by simpa [next, hji] using hj)
  · intro hlt
    simp only [next] at hlt
    omega
  · intro j hj
    obtain rfl : i = j := by simpa [next, hat] using hj
    exact .inr ⟨by simp [next], by simp [next, hacted]⟩

theorem inv_next {s : State ι} {a : Action ι} (h : Inv s) (he : Enabled s a) : Inv (next s a) := by
  cases a with
  | arrive i => exact h.arrive he
  | decide i => exact h.decides he
  | act i => exact h.acts he

omit [DecidableEq ι] in
/-- Who is about to act, or has acted, is the last to arrive. -/
theorem Inv.all_arrived {s : State ι} (h : Inv s) (ha : (∃ i, s.pc i = .act) ∨ s.acted ≠ [])
    (i : ι) : s.pc i ≠ .before := by
  classical
  have hlen : ¬s.arrived.length < Fintype.card ι := by
    intro hlt
    rcases ha with ⟨j, hj⟩ | hne
    · have hlen := (List.getElem?_eq_some_iff.mp (h.act j hj)).1
      omega
    · exact hne (h.notFull hlt)
  rw [← h.arrived]
  by_contra hi
  exact hlen (length_lt_card h.nodup hi)

omit [DecidableEq ι] in
theorem Inv.full {s : State ι} (h : Inv s) (hall : ∀ i, s.pc i ≠ .before) :
    s.arrived.length = Fintype.card ι := by
  classical
  have hset : s.arrived.toFinset = Finset.univ := by
    ext i
    simp [h.arrived, hall]
  rw [← List.toFinset_card_of_nodup h.nodup, hset, Finset.card_univ]

omit [DecidableEq ι] in
/-- It acts at most once, and it is the last to arrive that does. -/
theorem Inv.acted_last [Nonempty ι] {s : State ι} (h : Inv s) :
    s.acted = [] ∨ ∃ i, s.acted = [i] ∧ s.arrived.getLast? = some i := by
  by_cases hne : s.acted = []
  · exact .inl hne
  · have hfull := h.full (h.all_arrived (.inr hne))
    have hpos : 0 < Fintype.card ι := Fintype.card_pos
    have hlast : s.arrived[Fintype.card ι - 1]? = s.arrived.getLast? := by
      rw [List.getLast?_eq_getElem?, hfull]
    cases hi : s.arrived.getLast? with
    | none => simp [List.getLast?_eq_none_iff.mp hi] at hfull; omega
    | some i =>
      rcases h.last i (hlast.trans hi) with ⟨-, hnil⟩ | ⟨-, hacted⟩
      · exact absurd hnil hne
      · exact .inr ⟨i, hacted, rfl⟩

omit [DecidableEq ι] in
/-- Once all parties are through, one has acted. -/
theorem Inv.acted_of_after [Nonempty ι] {s : State ι} (h : Inv s) (hall : ∀ i, s.pc i = .after) :
    ∃ i, s.acted = [i] := by
  have hfull := h.full (fun i => by simp [hall])
  have hpos : 0 < Fintype.card ι := Fintype.card_pos
  have hlt : Fintype.card ι - 1 < s.arrived.length := by omega
  rcases h.last _ (List.getElem?_eq_getElem hlt) with ⟨hpc, -⟩ | ⟨-, hacted⟩
  · simp [hall] at hpc
  · exact ⟨_, hacted⟩

end Arrival
