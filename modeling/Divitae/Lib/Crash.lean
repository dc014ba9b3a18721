/-
# `Lib.Crash` — a machine that loses its memory

A machine has a memory and a disk.  An operation reads both; it gives the next memory and
a list of writes, which reach the disk one at a time, in order.  The power may fail between
any two of them: the disk then has the writes made so far, and the next memory is what
`boot` makes of that disk.

    Along write P d ws   `P` holds of the disk before the writes, and after each
    step                 one operation, finished or cut short
    run_inv              what finished operations keep, and what the disk keeps at every
                         point of them, give an invariant of the runs with crashes

The invariant of the memory and the disk need not hold in the middle of an operation.  What
must hold there is the invariant of the disk alone, and `boot` must restore the other from it.
-/
import Divitae.Lib.Run

namespace Crash

variable {μ δ ω ι : Type*}

structure Machine (μ δ ω ι : Type*) where
  write : δ → ω → δ
  act : μ → δ → ι → μ × List ω
  boot : δ → μ

/-- An operation, or one that the power failed in after `k` of its writes. -/
inductive Event (ι : Type*) where
  | act (i : ι)
  | crash (i : ι) (k : ℕ)

def Event.op : Event ι → ι
  | .act i => i
  | .crash i _ => i

/-! ## Along the writes -/

/-- `P` holds of the disk before the writes, and after each of them. -/
def Along (write : δ → ω → δ) (P : δ → Prop) : δ → List ω → Prop
  | d, [] => P d
  | d, w :: ws => P d ∧ Along write P (write d w) ws

section
variable {write : δ → ω → δ} {P Q : δ → Prop} {d : δ} {ws vs : List ω}

section
variable (h : Along write P d ws)
include h

theorem Along.take (k : ℕ) : P ((ws.take k).foldl write d) := by
  induction ws generalizing d k with
  | nil =>
    rw [List.take_nil]
    exact h
  | cons w ws ih =>
    cases k with
    | zero => exact h.1
    | succ k => exact ih h.2 k

theorem Along.last : P (ws.foldl write d) := by
  have hall : P ((ws.take ws.length).foldl write d) := h.take ws.length
  rwa [List.take_length] at hall

theorem Along.mono (hPQ : ∀ d, P d → Q d) : Along write Q d ws := by
  induction ws generalizing d with
  | nil => exact hPQ d h
  | cons w ws ih => exact ⟨hPQ d h.1, ih h.2⟩

theorem Along.append (h' : Along write P (ws.foldl write d) vs) :
    Along write P d (ws ++ vs) := by
  induction ws generalizing d with
  | nil => exact h'
  | cons w ws ih => exact ⟨h.1, ih h.2 h'⟩

end

section
variable (hd : P d) (hkeep : ∀ d, ∀ w ∈ ws, P d → P (write d w))
include hd hkeep

theorem along_of_kept :
    Along write P d ws := by
  induction ws generalizing d with
  | nil => exact hd
  | cons w ws ih =>
    refine ⟨hd, ih (hkeep d w List.mem_cons_self hd) ?_⟩
    intro d' w' hw'
    exact hkeep d' w' (List.mem_cons_of_mem w hw')

theorem foldl_of_kept :
    P (ws.foldl write d) := (along_of_kept hd hkeep).last

end

end

/-! ## Runs -/

def step (K : Machine μ δ ω ι) (s : μ × δ) : Event ι → μ × δ
  | .act i =>
    let done := K.act s.1 s.2 i
    (done.1, done.2.foldl K.write s.2)
  | .crash i k =>
    let disk := ((K.act s.1 s.2 i).2.take k).foldl K.write s.2
    (K.boot disk, disk)

def start (K : Machine μ δ ω ι) (d : δ) : μ × δ := (K.boot d, d)

def run (K : Machine μ δ ω ι) (d : δ) (es : List (Event ι)) : μ × δ := es.foldl (step K) (start K d)

/-- Every operation of the run, finished or not, meets `ok` where it starts. -/
def Meets (K : Machine μ δ ω ι) (ok : μ → δ → ι → Prop) (d : δ) (es : List (Event ι)) : Prop :=
  Run.Guarded (step K) (fun s e => ok s.1 s.2 e.op) (start K d) es

section
variable {K : Machine μ δ ω ι} {I : μ → δ → Prop} {J : δ → Prop} {ok : μ → δ → ι → Prop}

/-- **The rule for crashes.** -/
theorem run_inv
    (hact : ∀ m d i, I m d → ok m d i →
      Along K.write J d (K.act m d i).2 ∧ I (K.act m d i).1 ((K.act m d i).2.foldl K.write d))
    (hboot : ∀ d, J d → I (K.boot d) d)
    {d : δ} (hd : J d) {es : List (Event ι)} (hes : Meets K ok d es) :
    I (run K d es).1 (run K d es).2 := by
  refine Run.run_inv (I := fun s : μ × δ => I s.1 s.2) ?_ (hboot d hd) hes
  rintro ⟨m, d⟩ e hI hok
  obtain ⟨halong, hdone⟩ := hact m d e.op hI hok
  cases e with
  | act i => exact hdone
  | crash i k => exact hboot _ (halong.take k)

theorem meets_true (d : δ) (es : List (Event ι)) : Meets K (fun _ _ _ => True) d es :=
  (Run.guarded_of_forall (p := fun _ => True) fun _ _ => trivial).mono fun _ _ _ => trivial

end

end Crash
