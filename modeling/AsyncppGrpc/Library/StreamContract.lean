import AsyncppGrpc.Library.Run
import Mathlib.Algebra.Order.Group.Nat

/-! The client's side of one RPC stream as a contract over the operations issued on it and
their completions: one at a time, at most one half-close, and the finish last and after it.
Parametric in the operations. -/
namespace StreamContract
open Run
variable {ω : Type*}

inductive Role where
  | start
  | read
  | write
  | halfClose
  | finish
  deriving DecidableEq

inductive Event (ω : Type*) where
  | issue (op : ω)
  | done (op : ω) (ok : Bool)
  deriving DecidableEq

inductive Phase (ω : Type*) where
  | idle
  | busy (op : ω)
  | ready
  | failed
  | finished
  deriving DecidableEq

/-- `closed`: a half-close has completed. -/
structure Wire (ω : Type*) where
  phase : Phase ω
  closed : Bool

def Wire.init : Wire ω := ⟨.idle, false⟩

/-- What may be issued on an open stream. A stream the client does not write to is finished
without a half-close. -/
def Allowed (writing closed : Bool) : Role → Prop
  | .start => False
  | .read => True
  | .write | .halfClose => writing = true ∧ closed = false
  | .finish => closed = writing

instance (writing closed : Bool) (r : Role) : Decidable (Allowed writing closed r) := by
  cases r <;> unfold Allowed <;> infer_instance

section
variable [DecidableEq ω] (role : ω → Role) (writing : Bool)

def Enabled (w : Wire ω) : Event ω → Prop
  | .issue op => match w.phase with
    | .idle => role op = .start
    | .ready => Allowed writing w.closed (role op)
    | _ => False
  | .done op _ => w.phase = .busy op

instance (w : Wire ω) (e : Event ω) : Decidable (Enabled role writing w e) := by
  cases e with
  | issue op =>
    unfold Enabled
    cases w.phase <;> infer_instance
  | done op ok => unfold Enabled; infer_instance

def next (w : Wire ω) : Event ω → Wire ω
  | .issue op => { w with phase := .busy op }
  | .done op ok => match role op with
    | .start => { w with phase := if ok then .ready else .failed }
    | .halfClose => ⟨.ready, true⟩
    | .finish => { w with phase := .finished }
    | _ => { w with phase := .ready }

def accept : Wire ω → Event ω → Option (Wire ω) := stepOf (Enabled role writing) (next role)
end

/-- How often an operation of the given role is issued. -/
def issued (role : ω → Role) (r : Role) (log : List (Event ω)) : Nat :=
  log.countP fun
    | .issue op => role op = r
    | .done _ _ => false

def completed (role : ω → Role) (r : Role) (log : List (Event ω)) : Nat :=
  log.countP fun
    | .issue _ => false
    | .done op _ => role op = r

variable {role : ω → Role} {writing : Bool}

@[simp] theorem issued_issue (r : Role) (log : List (Event ω)) (op : ω) :
    issued role r (log ++ [.issue op]) = issued role r log + if role op = r then 1 else 0 := by
  simp [issued, List.countP_append, List.countP_singleton]

@[simp] theorem issued_done (r : Role) (log : List (Event ω)) (op : ω) (ok : Bool) :
    issued role r (log ++ [.done op ok]) = issued role r log := by
  simp [issued, List.countP_append]

@[simp] theorem completed_issue (r : Role) (log : List (Event ω)) (op : ω) :
    completed role r (log ++ [.issue op]) = completed role r log := by
  simp [completed, List.countP_append]

@[simp] theorem completed_done (r : Role) (log : List (Event ω)) (op : ω) (ok : Bool) :
    completed role r (log ++ [.done op ok]) =
      completed role r log + if role op = r then 1 else 0 := by
  simp [completed, List.countP_append, List.countP_singleton]

/-- A half-close is in flight. -/
def Phase.closing (role : ω → Role) : Phase ω → Bool
  | .busy op => role op = .halfClose
  | _ => false

/-- The finish is issued. -/
def Phase.finishing (role : ω → Role) : Phase ω → Bool
  | .busy op => role op = .finish
  | .finished => true
  | _ => false

/-- The stream has not been opened, or not successfully. -/
def Phase.unopened (role : ω → Role) : Phase ω → Bool
  | .busy op => role op = .start
  | .idle | .failed => true
  | _ => false

/-- What the log of an accepted run says of the state it leads to. -/
structure Accounts (role : ω → Role) (writing : Bool) (w : Wire ω) (log : List (Event ω)) :
    Prop where
  completed : completed role .halfClose log = w.closed.toNat
  closing : issued role .halfClose log = w.closed.toNat + (w.phase.closing role).toNat
  writer : w.closed = true ∨ w.phase.closing role = true → writing = true
  once : w.phase.closing role = true → w.closed = false
  finishes : issued role .finish log = (w.phase.finishing role).toNat
  finish : w.phase.finishing role = true → w.closed = writing
  unopened : w.phase.unopened role = true → ∀ op, .issue op ∈ log → role op = .start

theorem accounts_init : Accounts role writing (.init : Wire ω) [] := by
  constructor <;> simp [Wire.init, issued, StreamContract.completed, Phase.closing,
    Phase.finishing]

theorem Accounts.done {w : Wire ω} {log : List (Event ω)} (h : Accounts role writing w log)
    {op : ω} {ok : Bool} (hp : w.phase = .busy op) :
    Accounts role writing (next role w (.done op ok)) (log ++ [.done op ok]) := by
  obtain ⟨hcompleted, hclosing, hwriter, honce, hfinishes, hfinish, hun⟩ := h
  simp only [hp, Phase.closing, Phase.finishing, Phase.unopened] at *
  cases hr : role op with
  | start =>
    cases ok <;> constructor <;>
      simp_all [next, Phase.closing, Phase.finishing, Phase.unopened]
  | _ =>
    constructor <;> simp_all [next, Phase.closing, Phase.finishing, Phase.unopened]

theorem Accounts.issue {w : Wire ω} {log : List (Event ω)} (h : Accounts role writing w log)
    {op : ω} (he : Enabled role writing w (.issue op)) :
    Accounts role writing (next role w (.issue op)) (log ++ [.issue op]) := by
  obtain ⟨hcompleted, hclosing, hwriter, honce, hfinishes, hfinish, hun⟩ := h
  cases hp : w.phase with
  | idle =>
    have hs : role op = .start := by simpa [Enabled, hp] using he
    simp only [hp, Phase.closing, Phase.finishing, Phase.unopened] at *
    constructor <;> simp_all [next, Phase.closing, Phase.finishing]
    intro _ q hq
    cases hq with
    | inl hq => exact hun q hq
    | inr hq => rwa [hq]
  | ready =>
    have ha : Allowed writing w.closed (role op) := by simpa [Enabled, hp] using he
    simp only [hp, Phase.closing, Phase.finishing] at *
    cases hr : role op <;> simp only [hr, Allowed] at ha <;> constructor <;>
      simp_all [next, Phase.closing, Phase.finishing, Phase.unopened]
  | _ => simp [Enabled, hp] at he

variable [DecidableEq ω]

theorem accounts_run {w : Wire ω} {log : List (Event ω)}
    (hr : run (accept role writing) .init log = some w) : Accounts role writing w log := by
  apply log_of_run accounts_init _ hr
  intro w log e w' h hs
  obtain ⟨he, rfl⟩ := stepOf_eq_some.mp hs
  cases e with
  | issue op => exact h.issue he
  | done op ok => exact h.done he

/-- Where the finish is issued, the half-close the client owes is issued and completed. -/
theorem finish_after_halfClose {w : Wire ω} {pre post : List (Event ω)} {op : ω}
    (hr : run (accept role writing) .init (pre ++ .issue op :: post) = some w)
    (hop : role op = .finish) : issued role .halfClose pre = writing.toNat ∧
      completed role .halfClose pre = writing.toNat := by
  rw [run_append] at hr
  obtain ⟨v, hpre, hpost⟩ := Option.bind_eq_some_iff.mp hr
  obtain ⟨v', hs, -⟩ := run_cons_eq_some.mp hpost
  obtain ⟨he, -⟩ := stepOf_eq_some.mp hs
  have hacc := accounts_run hpre
  cases hp : v.phase with
  | idle => simp [Enabled, hp, hop] at he
  | ready =>
    have hc : v.closed = writing := by simpa [Enabled, hp, hop, Allowed] using he
    refine ⟨?_, hc ▸ hacc.completed⟩
    simpa [hp, Phase.closing, hc] using hacc.closing
  | _ => simp [Enabled, hp] at he

end StreamContract
