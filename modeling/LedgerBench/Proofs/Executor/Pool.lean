import LedgerBench.Executor.Basic
import Mathlib.Data.List.Basic
import Mathlib.Data.List.Perm.Basic
/-!
The steps of one pool, and what they keep.

A pool is in the hands of many: callers queue jobs and stop it, and each worker goes through its
loop. What is proved:
  1. `Pool.moves_of_moveWorker` and `Pool.Step` say all that can happen to a pool. Each step is an
     event (`PoolEvent`).
  2. `Pool.Sound`: the workers stay as many, the queue stays within its bound, and only the end of
     the queue or the signal makes a worker leave.
  3. `Runs.queue_eq`: jobs leave the queue in the order in which they were accepted.
  4. `Runs.running_perm` and `Runs.abandoning_perm`: a job that has begun is on a worker until it
     has ended, and a job that has panicked is until it has been abandoned.
-/

namespace LedgerBench

/-- An item replaced in a list: what balances it against the new one balances the lists. -/
theorem flatMap_set_perm {α β : Type} {g : α → List β} {l : List α} {i : Nat} {a b : α}
    {add drop : List β} (hi : l[i]? = some a) (h : (add ++ g a).Perm (drop ++ g b)) :
    (add ++ l.flatMap g).Perm (drop ++ (l.set i b).flatMap g) := by
  obtain ⟨hlt, rfl⟩ := List.getElem?_eq_some_iff.mp hi
  have hl : l.flatMap g = (l.take i).flatMap g ++ (g l[i] ++ (l.drop (i + 1)).flatMap g) := by
    conv => lhs; rw [← List.take_append_drop i l, List.drop_eq_getElem_cons hlt]
    rw [List.flatMap_append, List.flatMap_cons]
  rw [hl, List.set_eq_take_append_cons_drop, if_pos hlt, List.flatMap_append, List.flatMap_cons]
  calc (add ++ ((l.take i).flatMap g ++ (g l[i] ++ (l.drop (i + 1)).flatMap g))).Perm _ :=
        List.perm_append_comm_assoc ..
    _ = (l.take i).flatMap g ++ ((add ++ g l[i]) ++ (l.drop (i + 1)).flatMap g) := by simp
    List.Perm _ ((l.take i).flatMap g ++ ((drop ++ g b) ++ (l.drop (i + 1)).flatMap g)) :=
        (h.append_right _).append_left _
    _ = (l.take i).flatMap g ++ (drop ++ (g b ++ (l.drop (i + 1)).flatMap g)) := by simp
    List.Perm _ (drop ++ ((l.take i).flatMap g ++ (g b ++ (l.drop (i + 1)).flatMap g))) :=
        List.perm_append_comm_assoc ..

theorem flatMap_of_forall_eq {α β : Type} {g : α → List β} {a : α} (hg : g a = []) {l : List α}
    (h : ∀ b ∈ l, b = a) : l.flatMap g = [] := by
  rw [List.flatMap_eq_nil_iff]
  intro b hb
  rw [h b hb, hg]

namespace JobRecord

variable {J : Type}

def accepted? : JobRecord J → Option J
  | .accepted job => some job
  | _ => none

def begun? : JobRecord J → Option J
  | .begun job => some job
  | _ => none

/-- The job that has come to its end, by itself or by a panic. -/
def ended? : JobRecord J → Option J
  | .returned job | .panicked job _ => some job
  | _ => none

def panicked? : JobRecord J → Option (J × String)
  | .panicked job reason => some (job, reason)
  | _ => none

def abandoned? : JobRecord J → Option (J × String)
  | .abandoned job reason => some (job, reason)
  | _ => none

end JobRecord

/-- What happens to a pool in one step. -/
inductive PoolEvent (J : Type) where
  | accepted (job : J)
  /-- Taken from the executor to be stopped. -/
  | taken (drain : Bool)
  /-- The next stage of stopping. -/
  | advanced
  /-- A move of a worker, and what it puts on record. -/
  | moved (worker : Nat) (record : Option (JobRecord J))
  deriving DecidableEq, Repr

namespace PoolEvent

variable {J : Type}

def record? : PoolEvent J → Option (JobRecord J)
  | .accepted job => some (.accepted job)
  | .moved _ record => record
  | .taken _ | .advanced => none

/-- Whether an event is a move of the worker with a number. -/
def isBy (worker : Nat) : PoolEvent J → Bool
  | .moved i _ => i = worker
  | _ => false

end PoolEvent

/-- What some of the records of a history are of. -/
def recorded {J α : Type} (f : JobRecord J → Option α) (history : List (PoolEvent J)) : List α :=
  history.filterMap fun event => event.record?.bind f

@[simp] theorem recorded_nil {J α : Type} (f : JobRecord J → Option α) : recorded f [] = [] := rfl

theorem recorded_cons {J α : Type} (f : JobRecord J → Option α) (event : PoolEvent J)
    (history : List (PoolEvent J)) :
    recorded f (event :: history) = (event.record?.bind f).toList ++ recorded f history := by
  rw [recorded, List.filterMap_cons]
  cases event.record?.bind f <;> rfl

theorem recorded_append {J α : Type} (f : JobRecord J → Option α) (a b : List (PoolEvent J)) :
    recorded f (a ++ b) = recorded f a ++ recorded f b :=
  List.filterMap_append

namespace Worker

variable {J : Type}

/-- The job that a worker runs. -/
def runs : Worker J → List J
  | .running job => [job]
  | _ => []

/-- The job that a worker is about to abandon, and why. -/
def abandons : Worker J → List (J × String)
  | .abandoning job reason => [(job, reason)]
  | _ => []

theorem runs_length_le (w : Worker J) : w.runs.length ≤ 1 := by
  cases w <;> simp [runs]

end Worker

namespace Pool

variable {J : Type} {capacity : Nat} {p q r : Pool J}

/-- A pool that has just been opened. -/
def fresh (workers : Nat) : Pool J where
  workers := List.replicate workers .checking

/-- The jobs that the workers run. -/
def running (p : Pool J) : List J := p.workers.flatMap Worker.runs

def abandoning (p : Pool J) : List (J × String) := p.workers.flatMap Worker.abandons

theorem running_length_le (p : Pool J) : p.running.length ≤ p.workers.length := by
  unfold running
  induction p.workers with
  | nil => simp
  | cons w ws ih =>
    have := w.runs_length_le
    simp only [List.flatMap_cons, List.length_append, List.length_cons]
    omega

theorem running_fresh (n : Nat) : (fresh n : Pool J).running = [] :=
  flatMap_of_forall_eq rfl fun _ => List.eq_of_mem_replicate

theorem abandoning_fresh (n : Nat) : (fresh n : Pool J).abandoning = [] :=
  flatMap_of_forall_eq rfl fun _ => List.eq_of_mem_replicate

theorem allLeft_iff : p.allLeft = true ↔ ∀ w ∈ p.workers, w = .left := by
  unfold allLeft
  rw [List.all_eq_true]
  refine forall₂_congr fun w _ => ?_
  cases w <;> simp

theorem isLocked_iff : p.isLocked = true ↔ .selecting ∈ p.workers := by
  unfold isLocked
  rw [List.any_eq_true]
  constructor
  · rintro ⟨w, hw, h⟩
    cases w <;> first | exact hw | cases h
  · exact fun h => ⟨_, h, rfl⟩

theorem isClosed_iff : p.isClosed = true ↔ p.stage = .closed ∨ p.stage = .returned := by
  simp [isClosed]

/-! ## Steps -/

/-- Where a worker of a pool goes from one place in its loop, with what it puts on record and the
queue it leaves. -/
inductive Moves (p : Pool J) : Worker J → Option (JobRecord J) → Worker J → List J → Prop where
  | told (h : p.signal = true) : Moves p .checking none .left p.queue
  | check (h : p.signal = false) : Moves p .checking none .waiting p.queue
  | lock (h : p.isLocked = false) : Moves p .waiting none .selecting p.queue
  | notice (h : p.signal = true) : Moves p .selecting none .checking p.queue
  | receive (job : J) (queue : List J) (h : p.queue = job :: queue) :
      Moves p .selecting (some (.begun job)) (.running job) queue
  | leave (hq : p.queue = []) (hc : p.isClosed = true) : Moves p .selecting none .left p.queue
  | finish (job : J) : Moves p (.running job) (some (.returned job)) .checking p.queue
  | panic (job : J) (reason : String) :
      Moves p (.running job) (some (.panicked job reason)) (.abandoning job reason) p.queue
  | abandon (job : J) (reason : String) :
      Moves p (.abandoning job reason) (some (.abandoned job reason)) .checking p.queue

theorem moves_of_moveWorker {i : Nat} {move : WorkerMove} {records : List (JobRecord J)}
    (h : p.moveWorker? i move = some (q, records)) :
    ∃ w record next queue, p.workers[i]? = some w ∧ p.Moves w record next queue ∧
      records = record.toList ∧
      q = { p with workers := p.workers.set i next, queue } := by
  unfold moveWorker? at h
  split at h
  · rename_i hw
    obtain ⟨rfl, rfl⟩ := Prod.mk.inj (Option.some.inj h)
    cases hs : p.signal with
    | true => exact ⟨_, _, _, _, hw, .told hs, rfl, rfl⟩
    | false => exact ⟨_, _, _, _, hw, .check hs, rfl, rfl⟩
  · rename_i hw
    split at h
    · cases h
    · rename_i hl
      obtain ⟨rfl, rfl⟩ := Prod.mk.inj (Option.some.inj h)
      exact ⟨_, _, _, _, hw, .lock (Bool.not_eq_true _ ▸ hl), rfl, rfl⟩
  · rename_i hw
    split at h
    · rename_i hs
      obtain ⟨rfl, rfl⟩ := Prod.mk.inj (Option.some.inj h)
      exact ⟨_, _, _, _, hw, .notice hs, rfl, rfl⟩
    · cases h
  · rename_i hw
    split at h
    · rename_i job queue hq
      obtain ⟨rfl, rfl⟩ := Prod.mk.inj (Option.some.inj h)
      exact ⟨_, _, _, _, hw, .receive job queue hq, rfl, rfl⟩
    · cases h
  · rename_i hw
    split at h
    · rename_i hleave
      rw [Bool.and_eq_true, List.isEmpty_iff] at hleave
      obtain ⟨rfl, rfl⟩ := Prod.mk.inj (Option.some.inj h)
      exact ⟨_, _, _, _, hw, .leave hleave.1 hleave.2, rfl, rfl⟩
    · cases h
  · rename_i job hw
    obtain ⟨rfl, rfl⟩ := Prod.mk.inj (Option.some.inj h)
    exact ⟨_, _, _, _, hw, .finish job, rfl, rfl⟩
  · rename_i job reason hw
    obtain ⟨rfl, rfl⟩ := Prod.mk.inj (Option.some.inj h)
    exact ⟨_, _, _, _, hw, .panic job _, rfl, rfl⟩
  · rename_i job reason hw
    obtain ⟨rfl, rfl⟩ := Prod.mk.inj (Option.some.inj h)
    exact ⟨_, _, _, _, hw, .abandon job reason, rfl, rfl⟩
  · cases h

/-- What can happen to a pool whose queue has room for `capacity` jobs. -/
inductive Step (capacity : Nat) (p : Pool J) : PoolEvent J → Pool J → Prop where
  | accept (job : J) (hopen : p.stage = .open) (hroom : p.queue.length < capacity) :
      Step capacity p (.accepted job) { p with queue := p.queue ++ [job] }
  | take (drain : Bool) (hopen : p.stage = .open) :
      Step capacity p (.taken drain) { p with stage := .requested drain }
  | signal (h : p.stage = .requested false) :
      Step capacity p .advanced { p with stage := .signalled, signal := true }
  | close (h : p.stage = .requested true ∨ p.stage = .signalled) :
      Step capacity p .advanced { p with stage := .closed }
  | conclude (h : p.stage = .closed) (hleft : p.allLeft = true) :
      Step capacity p .advanced { p with stage := .returned }
  | work (i : Nat) {w next : Worker J} {record : Option (JobRecord J)} {queue : List J}
      (hw : p.workers[i]? = some w) (h : p.Moves w record next queue) :
      Step capacity p (.moved i record) { p with workers := p.workers.set i next, queue }

theorem step_of_advanceStop (h : p.advanceStop? = some q) : Step capacity p .advanced q := by
  unfold advanceStop? at h
  split at h
  · cases h
  · obtain rfl := Option.some.inj h
    exact .close (.inl ‹_›)
  · obtain rfl := Option.some.inj h
    exact .signal ‹_›
  · obtain rfl := Option.some.inj h
    exact .close (.inr ‹_›)
  · split at h
    · obtain rfl := Option.some.inj h
      exact .conclude ‹_› ‹_›
    · cases h
  · cases h

/-- No step opens a pool. -/
theorem Step.open_of_open {event : PoolEvent J} (h : Step capacity p event q)
    (hq : q.stage = .open) :
    p.stage = .open := by
  cases h with
  | accept job hopen hroom => exact hopen
  | take drain hopen => exact hopen
  | work i hw h => exact hq
  | _ => cases hq

/-- Steps one after another. -/
inductive Runs (capacity : Nat) : Pool J → List (PoolEvent J) → Pool J → Prop where
  | start (p : Pool J) : Runs capacity p [] p
  | step {p q r : Pool J} {event : PoolEvent J} {history : List (PoolEvent J)}
    (head : Step capacity p event q)
      (tail : Runs capacity q history r) : Runs capacity p (event :: history) r

theorem Runs.trans {first second : List (PoolEvent J)} (h : Runs capacity p first q)
    (rest : Runs capacity q second r) : Runs capacity p (first ++ second) r := by
  induction h with
  | start => exact rest
  | step head _ ih => exact .step head (ih rest)

/-- What each step keeps, a run keeps. -/
theorem Runs.preserves {P : Pool J → Prop}
    (hP : ∀ {p q : Pool J} {event : PoolEvent J}, Step capacity p event q → P p → P q)
    {history : List (PoolEvent J)} (h : Runs capacity p history q) (hp : P p) : P q := by
  induction h with
  | start => exact hp
  | step head _ ih => exact ih (hP head hp)

/-! ## Sound pools -/

/-- A pool of `n` workers at one moment: `left` says that without the signal a worker leaves only
when no job will ever come. -/
structure Sound (n capacity : Nat) (p : Pool J) : Prop where
  workers : p.workers.length = n
  queue : p.queue.length ≤ capacity
  signal : p.signal = true → p.stage = .signalled ∨ p.stage = .closed ∨ p.stage = .returned
  left : p.signal = false → .left ∈ p.workers → p.queue = [] ∧ p.isClosed = true
  returned : p.stage = .returned → p.allLeft = true

theorem sound_fresh (n capacity : Nat) : (fresh n : Pool J).Sound n capacity where
  workers := List.length_replicate
  queue := Nat.zero_le _
  signal h := by cases h
  left _ h := by simp [fresh] at h
  returned h := by cases h

theorem Moves.queue_length_le {w next : Worker J} {record : Option (JobRecord J)} {queue : List J}
    (h : p.Moves w record next queue) : queue.length ≤ p.queue.length := by
  cases h with
  | receive job queue h => simp [h]
  | _ => exact Nat.le_refl _

theorem Moves.ne_left {w next : Worker J} {record : Option (JobRecord J)} {queue : List J}
    (h : p.Moves w record next queue) : w ≠ .left := by
  cases h <;> simp

theorem Sound.step {n : Nat} {event : PoolEvent J} (h : Step capacity p event q)
    (hp : p.Sound n capacity) :
    q.Sound n capacity := by
  cases h with
  | accept job hopen hroom =>
    refine ⟨hp.workers, ?_, hp.signal, fun hs hleft => ?_, fun hr => ?_⟩
    · show (p.queue ++ [job]).length ≤ capacity
      rw [List.length_append]
      exact hroom
    · have hclosed := (hp.left hs hleft).2
      simp [isClosed_iff, hopen] at hclosed
    · rw [show p.stage = .returned from hr] at hopen
      cases hopen
  | take drain hopen =>
    refine ⟨hp.workers, hp.queue, fun hs => ?_, fun hs hleft => ?_, fun hr => by cases hr⟩
    · have hstage := hp.signal hs
      simp [hopen] at hstage
    · have hclosed := (hp.left hs hleft).2
      simp [isClosed_iff, hopen] at hclosed
  | signal h =>
    exact ⟨hp.workers, hp.queue, fun _ => .inl rfl, fun hs => (by cases hs), fun hr => by cases hr⟩
  | close h =>
    refine ⟨hp.workers, hp.queue, fun _ => .inr (.inl rfl), fun hs hleft => ?_,
      fun hr => by cases hr⟩
    exact ⟨(hp.left hs hleft).1, rfl⟩
  | conclude h hleft =>
    refine ⟨hp.workers, hp.queue, fun _ => .inr (.inr rfl), fun hs hleft => ?_, fun _ => hleft⟩
    exact ⟨(hp.left hs hleft).1, rfl⟩
  | @work i w next record queue hw h =>
    refine ⟨by rw [List.length_set, hp.workers], Nat.le_trans h.queue_length_le hp.queue, hp.signal,
      ?_, fun hr => ?_⟩
    · intro hs hleft
      rcases List.mem_or_eq_of_mem_set hleft with hleft | rfl
      · -- A worker had left before: the queue is empty, and it stays so.
        obtain ⟨hq, hc⟩ := hp.left hs hleft
        refine ⟨List.eq_nil_of_length_eq_zero ?_, hc⟩
        have := h.queue_length_le
        rw [hq, List.length_nil] at this
        exact Nat.le_zero.mp this
      · cases h with
        | told h =>
          rw [hs] at h
          cases h
        | leave hq hc => exact ⟨hq, hc⟩
    · -- Nobody moves once all have left.
      have hleft := allLeft_iff.mp (hp.returned hr) w (List.mem_of_getElem? hw)
      exact absurd hleft h.ne_left

theorem Sound.runs {n : Nat} {history : List (PoolEvent J)} (hp : p.Sound n capacity)
    (h : Runs capacity p history q) : q.Sound n capacity :=
  h.preserves Sound.step hp

/-! ## Where the jobs are -/

/-- Jobs leave the queue in the order in which they came in. -/
theorem Step.queue_eq {event : PoolEvent J} (h : Step capacity p event q) :
    p.queue ++ (event.record?.bind JobRecord.accepted?).toList
      = (event.record?.bind JobRecord.begun?).toList ++ q.queue := by
  cases h with
  | accept job _ _ => rfl
  | work i hw h =>
    cases h with
    | receive job queue h => simp [h, PoolEvent.record?, JobRecord.accepted?, JobRecord.begun?]
    | _ => exact List.append_nil _
  | _ => exact List.append_nil _

theorem Runs.queue_eq {history : List (PoolEvent J)} (h : Runs capacity p history q) :
    p.queue ++ recorded JobRecord.accepted? history =
      recorded JobRecord.begun? history ++ q.queue := by
  induction h with
  | start => exact List.append_nil _
  | @step p q r event history head _ ih =>
    rw [recorded_cons, recorded_cons]
    calc p.queue ++ ((event.record?.bind JobRecord.accepted?).toList
          ++ recorded JobRecord.accepted? history)
        = ((event.record?.bind JobRecord.begun?).toList ++ q.queue)
          ++ recorded JobRecord.accepted? history := by
          rw [← List.append_assoc, head.queue_eq]
      _ = (event.record?.bind JobRecord.begun?).toList
          ++ (recorded JobRecord.begun? history ++ r.queue) := by
          rw [List.append_assoc, ih]
      _ = _ := (List.append_assoc ..).symm

section Balance

variable {α : Type} {add drop : JobRecord J → Option α}

/-- What every move adds to its worker or takes from it, a step adds to the workers or takes from
them. -/
theorem Step.balance {g : Worker J → List α}
    (haccepted : ∀ job, add (.accepted job) = none ∧ drop (.accepted job) = none)
    (hmoves : ∀ {p : Pool J} {w next : Worker J} {record : Option (JobRecord J)} {queue : List J},
      p.Moves w record next queue → ((record.bind add).toList ++ g w).Perm
      ((record.bind drop).toList ++ g next)) {event : PoolEvent J} (h : Step capacity p event q) :
    ((event.record?.bind add).toList ++ p.workers.flatMap g).Perm
      ((event.record?.bind drop).toList ++ q.workers.flatMap g) := by
  cases h with
  | accept job _ _ =>
    obtain ⟨hadd, hdrop⟩ := haccepted job
    simp [PoolEvent.record?, hadd, hdrop]
  | work i hw h => exact flatMap_set_perm hw (hmoves h)
  | _ => exact .refl _

/-- What balances every step balances a run. -/
theorem Runs.balance {f : Pool J → List α}
    (hstep : ∀ {p q : Pool J} {event : PoolEvent J}, Step capacity p event q →
      ((event.record?.bind add).toList ++ f p).Perm ((event.record?.bind drop).toList ++ f q))
    {history : List (PoolEvent J)} (h : Runs capacity p history q) :
    (recorded add history ++ f p).Perm (recorded drop history ++ f q) := by
  induction h with
  | start => exact .refl _
  | @step p q r event history head _ ih =>
    rw [recorded_cons, recorded_cons, List.append_assoc, List.append_assoc]
    calc ((event.record?.bind add).toList ++ (recorded add history ++ f p)).Perm
          (recorded add history ++ ((event.record?.bind add).toList ++ f p)) :=
            List.perm_append_comm_assoc ..
      List.Perm _ (recorded add history ++ ((event.record?.bind drop).toList ++ f q)) :=
          (hstep head).append_left _
      List.Perm _ ((event.record?.bind drop).toList ++ (recorded add history ++ f q)) :=
          List.perm_append_comm_assoc ..
      List.Perm _ ((event.record?.bind drop).toList ++ (recorded drop history ++ f r)) :=
        ih.append_left _

end Balance

/-- A job that has begun is on a worker until it ends. -/
theorem Step.running_perm {event : PoolEvent J} (h : Step capacity p event q) :
    ((event.record?.bind JobRecord.begun?).toList ++ p.running).Perm
      ((event.record?.bind JobRecord.ended?).toList ++ q.running) := by
  refine h.balance (fun _ => ⟨rfl, rfl⟩) fun hmoves => ?_
  cases hmoves <;> exact .refl _

/-- A job that has panicked is on its worker until it is abandoned. -/
theorem Step.abandoning_perm {event : PoolEvent J} (h : Step capacity p event q) :
    ((event.record?.bind JobRecord.panicked?).toList ++ p.abandoning).Perm
      ((event.record?.bind JobRecord.abandoned?).toList ++ q.abandoning) := by
  refine h.balance (fun _ => ⟨rfl, rfl⟩) fun hmoves => ?_
  cases hmoves <;> exact .refl _

theorem Runs.running_perm {history : List (PoolEvent J)} (h : Runs capacity p history q) :
    (recorded JobRecord.begun? history ++ p.running).Perm
      (recorded JobRecord.ended? history ++ q.running) :=
  h.balance Step.running_perm

theorem Runs.abandoning_perm {history : List (PoolEvent J)} (h : Runs capacity p history q) :
    (recorded JobRecord.panicked? history ++ p.abandoning).Perm
      (recorded JobRecord.abandoned? history ++ q.abandoning) :=
  h.balance Step.abandoning_perm

end Pool

end LedgerBench
