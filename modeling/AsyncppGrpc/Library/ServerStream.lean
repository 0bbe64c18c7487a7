import AsyncppGrpc.Library.Run

/-! The server's side of RPC streams as a contract over the calls that arrive, the operations
issued and their completions: one at a time, the initial metadata once and before anything
that sends it, and one finish, which is the last. Parametric in the operations. -/
namespace ServerStream
open Run
variable {ω : Type*}

inductive Role where
  | metadata
  | read
  | write
  | finish
  deriving DecidableEq

/-- `bind`: a call arrives on the stream. -/
inductive Event (ω : Type*) where
  | bind
  | issue (op : ω)
  | done
  deriving DecidableEq

/-- `sent`: the initial metadata has been sent. -/
inductive Wire where
  | idle
  | ready (sent : Bool)
  | busy (sent : Bool) (r : Role)
  deriving DecidableEq

/-- What may be issued on a stream the client writes to (`reading`), the server writes to
(`writing`), or both. -/
def Allowed (reading writing sent : Bool) : Role → Prop
  | .metadata => sent = false
  | .read => reading = true
  | .write => writing = true
  | .finish => True

instance (reading writing sent : Bool) (r : Role) : Decidable (Allowed reading writing sent r) := by
  cases r <;> unfold Allowed <;> infer_instance

/-- Whether the metadata is sent once an operation of the role is issued. -/
def Role.sends (sent : Bool) (r : Role) : Bool := sent || r ≠ .read

variable (role : ω → Role) (reading writing : Bool)

def accept : Wire → Event ω → Option Wire
  | .idle, .bind => some (.ready false)
  | .ready sent, .issue op =>
    if Allowed reading writing sent (role op) then some (.busy ((role op).sends sent) (role op))
    else none
  | .busy sent r, .done => some (if r = .finish then .idle else .ready sent)
  | _, _ => none

/-- The rest of an RPC on a stream that is ready. -/
inductive Rest : Bool → List (Event ω) → Prop
  | finish (sent : Bool) (op : ω) (hop : role op = .finish) : Rest sent [.issue op, .done]
  | round (sent : Bool) (op : ω) (es : List (Event ω)) (hop : role op ≠ .finish)
      (ha : Allowed reading writing sent (role op)) (h : Rest ((role op).sends sent) es) :
      Rest sent (.issue op :: .done :: es)

/-- Whole RPCs, one after the other. -/
inductive Sessions : List (Event ω) → Prop
  | nil : Sessions []
  | session (es fs : List (Event ω)) (h : Rest role reading writing false es)
      (hs : Sessions fs) : Sessions (.bind :: (es ++ fs))

/-- What may follow up to the end of an RPC. -/
def Lang : Wire → List (Event ω) → Prop
  | .idle, es => Sessions role reading writing es
  | .ready sent, es => ∃ fs gs, es = fs ++ gs ∧ Rest role reading writing sent fs ∧
      Sessions role reading writing gs
  | .busy sent r, es => ∃ gs, es = .done :: gs ∧
      if r = .finish then Sessions role reading writing gs
      else ∃ fs hs, gs = fs ++ hs ∧ Rest role reading writing sent fs ∧
        Sessions role reading writing hs

variable {role reading writing}

theorem Rest.head {sent : Bool} {fs : List (Event ω)} (h : Rest role reading writing sent fs) :
    ∃ op fs', fs = .issue op :: .done :: fs' := by
  cases h with
  | finish _ op hop => exact ⟨op, [], rfl⟩
  | round _ op es hop ha h => exact ⟨op, es, rfl⟩

theorem not_lang_nil {w : Wire} (h : w ≠ .idle) : ¬Lang role reading writing w [] := by
  cases w with
  | idle => exact absurd rfl h
  | ready sent =>
    intro ⟨fs, gs, hes, hrest, _⟩
    obtain ⟨rfl, -⟩ := List.nil_eq_append_iff.mp hes
    cases hrest
  | busy sent r => simp [Lang]

/-- What may follow, split at the first event. -/
theorem lang_cons (w : Wire) (e : Event ω) (es : List (Event ω)) :
    Lang role reading writing w (e :: es) ↔
      ∃ w', accept role reading writing w e = some w' ∧ Lang role reading writing w' es := by
  cases w with
  | idle =>
    cases e with
    | bind =>
      simp only [accept, Option.some.injEq, exists_eq_left']
      constructor
      · intro h
        cases h with
        | session fs gs h hs => exact ⟨fs, gs, rfl, h, hs⟩
      · intro ⟨fs, gs, hes, h, hs⟩
        subst hes
        exact .session fs gs h hs
    | issue op =>
      simp only [accept, reduceCtorEq, false_and, exists_false, iff_false]
      exact nofun
    | done =>
      simp only [accept, reduceCtorEq, false_and, exists_false, iff_false]
      exact nofun
  | ready sent =>
    cases e with
    | issue op =>
      constructor
      · intro ⟨fs, gs, hes, hrest, hs⟩
        cases hrest with
        | finish _ op hop =>
          obtain ⟨rfl, rfl⟩ : _ = op ∧ es = .done :: gs := by simpa using hes
          refine ⟨.busy (Role.sends sent .finish) .finish, ?_, gs, rfl, by simpa using hs⟩
          simp [accept, Allowed, hop]
        | round _ op fs hop ha hrest =>
          obtain ⟨rfl, rfl⟩ : _ = op ∧ es = .done :: (fs ++ gs) := by simpa using hes
          refine ⟨_, if_pos ha, fs ++ gs, rfl, ?_⟩
          rw [if_neg hop]
          exact ⟨fs, gs, rfl, hrest, hs⟩
      · intro ⟨w', hw, hlang⟩
        obtain ⟨ha, rfl⟩ : Allowed reading writing sent (role op) ∧
            .busy ((role op).sends sent) (role op) = w' := by
          simpa [accept, Option.ite_none_right_eq_some] using hw
        obtain ⟨gs, rfl, hgs⟩ := hlang
        by_cases hop : role op = .finish
        · rw [if_pos hop] at hgs
          exact ⟨_, gs, rfl, .finish sent op hop, hgs⟩
        · rw [if_neg hop] at hgs
          obtain ⟨fs, hs, rfl, hrest, hsess⟩ := hgs
          exact ⟨_, hs, rfl, .round sent op fs hop ha hrest, hsess⟩
    | _ =>
      simp only [accept, reduceCtorEq, false_and, exists_false, iff_false]
      intro ⟨fs, gs, hes, hrest, _⟩
      obtain ⟨op, fs', rfl⟩ := hrest.head
      simp at hes
  | busy sent r =>
    cases e with
    | done =>
      by_cases hr : r = .finish
      · simp [accept, Lang, hr]
      · simp [accept, Lang, hr]
    | bind => simp [accept, Lang]
    | issue op => simp [accept, Lang]

/-- The contract ends between RPCs exactly on whole ones. -/
theorem run_eq_idle_iff (w : Wire) (es : List (Event ω)) :
    run (accept role reading writing) w es = some .idle ↔ Lang role reading writing w es := by
  induction es generalizing w with
  | nil =>
    by_cases hw : w = .idle
    · subst w
      exact iff_of_true rfl .nil
    · simp [hw, not_lang_nil hw]
  | cons e es ih =>
    rw [run_cons_eq_some, lang_cons]
    exact exists_congr fun w' => and_congr_right' (ih w')

theorem sessions_iff (es : List (Event ω)) :
    run (accept role reading writing) .idle es = some .idle ↔
      Sessions role reading writing es :=
  run_eq_idle_iff .idle es

end ServerStream
