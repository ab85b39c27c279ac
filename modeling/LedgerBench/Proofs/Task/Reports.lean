import LedgerBench.Proofs.Task.Uses
import Mathlib.Data.List.Forall2
/-!
What the groups of a tree report, however often the tree is used.

A group that is used uses its members, and reports once in its life. An event says whose it is by an
identifier, which two tasks might share; so what is exchanged is noted here with the place of the
task that exchanges it. What is proved:
  1. `Task.path_iff_noted`: the paths of a use are what can be noted of it, and `Task.Noted.at` cuts
     out of the notes of a tree what one task in it noted.
  2. `Task.Noted.completed`, `Task.Noted.reported`, `Task.Noted.quiet`: what a call that owes an
     outcome, a group that has not reported and one that has reported note.
  3. `Task.quiet_of_uses`: a group that has reported is never heard of again, whatever is done with
     the tree that it is in.
  4. `Task.reports_of_uses`: so every group of a new tree reports exactly once, in the first use,
     after everything below it, and with what its members then hold.
-/

namespace LedgerBench

open Program

/-! ## Places -/

namespace Task

def members : Task → List Task
  | group _ _ members => members
  | _ => []

/-- The task at some place of a tree. A place is the way to it from the root: which member of each
group it leads through. -/
def at? : List Nat → Task → Option Task
  | [], t => some t
  | n :: rest, t => t.members[n]?.bind (at? rest)

theorem at?_append (p q : List Nat) (t : Task) : at? (p ++ q) t = (at? p t).bind (at? q) := by
  induction p generalizing t with
  | nil => rfl
  | cons n rest ih =>
    simp only [List.cons_append, at?, Option.bind_assoc]
    congr 1
    funext m
    exact ih m

theorem firstError_eq (ts : List Task) : firstError ts = ts.findSome? lastError := by
  induction ts with
  | nil => rfl
  | cons t rest ih =>
    rw [firstError, ih, List.findSome?_cons]
    cases lastError t <;> rfl

end Task

/-- An exchange and the place of the task that makes it. -/
structure Note where
  place : List Nat
  exchange : Exchange

namespace Note

/-- The note of a report. -/
def report (place : List Nat) (event : Event) : Note := ⟨place, ⟨.emit event, ()⟩⟩

/-- What is noted of a part of a tree, noted of the tree that has this part at some place. -/
def under (p : List Nat) (note : Note) : Note := { note with place := p ++ note.place }

theorem map_under_nil (log : List Note) : log.map (under []) = log := List.map_id log

theorem map_under_under (p q : List Nat) (log : List Note) :
    (log.map (under q)).map (under p) = log.map (under (p ++ q)) := by
  simp [under]

theorem under_report (p q : List Nat) (event : Event) :
    under p (report q event) = report (p ++ q) event :=
  rfl

theorem map_exchange_under (p : List Nat) (log : List Note) :
    (log.map (under p)).map Note.exchange = log.map Note.exchange := by
  simp [under]

theorem map_exchange_mk (p : List Nat) (xs : List Exchange) :
    (xs.map (Note.mk p)).map Note.exchange = xs := by
  rw [List.map_map]
  exact List.map_id xs

/-- What is noted elsewhere in a member is noted elsewhere in its group. -/
theorem not_prefix_under {p : List Nat} {log : List Note}
    (h : ∀ note ∈ log, ¬ p <+: note.place) (n : Nat) :
    ∀ note ∈ log.map (under [n]), ¬ n :: p <+: note.place := by
  intro note hnote hprefix
  obtain ⟨inner, hinner, rfl⟩ := List.mem_map.mp hnote
  obtain ⟨-, hp⟩ := List.cons_prefix_cons.mp hprefix
  exact h inner hinner hp

end Note

/-! ## What a use does in a group -/

namespace Operation

/-- What is done with a member of a group: one that is invoked is abandoned if it panics. -/
def member (binding : Binding) : Operation → Task → Program Task
  | invoke, t => t.runIsolated binding
  | abandon reason, t => t.abandon reason

/-- What is done with members that follow each other; those already done are held in reverse. -/
def all (binding : Binding) : Operation → List Task → List Task → Program (List Task)
  | invoke, past, ts => Task.invokeAll binding past ts
  | abandon reason, past, ts => Task.abandonAll reason past ts

/-- The error that a group reports: the first of its members', or else the reason for which it is
abandoned. -/
def error (now : List Task) : Operation → Option CallError
  | invoke => now.findSome? Task.lastError
  | abandon reason => some ((now.findSome? Task.lastError).getD (CallError.panicked reason))

/-- What a group reports whose members are as they are now. -/
def report (operation : Operation) (id : TaskId) (now : List Task) : Event :=
  .groupCompleted id now.length (now.map Task.attempts).sum (operation.error now)

variable (binding : Binding) (operation : Operation)

theorem all_nil (past : List Task) : operation.all binding past [] = pure past.reverse := by
  cases operation with
  | invoke => exact Task.invokeAll.eq_1 binding past
  | abandon reason => exact Task.abandonAll.eq_1 reason past

theorem all_cons (past : List Task) (t : Task) (rest : List Task) :
    operation.all binding past (t :: rest) = operation.member binding t >>= fun t =>
      operation.all binding (t :: past) rest := by
  cases operation with
  | invoke => exact Task.invokeAll_cons binding past t rest
  | abandon reason => exact Task.abandonAll.eq_2 reason past t rest

theorem member_group (id : TaskId) (completed : Bool) (ts : List Task) :
    operation.member binding (.group id completed ts) =
      operation.all binding [] ts >>= fun now =>
        Task.completeGroup id completed now (operation.error now) := by
  cases operation with
  | invoke =>
    simp only [member, Task.runIsolated, Task.invoke, all, error, LawfulMonad.bind_assoc,
      LawfulMonad.pure_bind, bind_pure, Task.firstError_eq]
  | abandon reason =>
    simp only [member, Task.abandon, all, error, Task.firstError_eq]

end Operation

/-! ## What a use exchanges, and where -/

namespace Task

variable {binding : Binding} {operation : Operation} {t s left : Task}
  {log : List Note} {id : TaskId}

mutual

/-- What a use of a member can note and leave. A call notes what it exchanges at its own place. A
group notes what its members note, and then its own report unless it has made one. -/
inductive Noted (binding : Binding) (operation : Operation) : Task → List Note → Task → Prop where
  | call {c : CallTask} {xs : List Exchange} {left : Task}
    (h : Path (operation.member binding (call c)) xs left) :
      Noted binding operation (call c) (xs.map (Note.mk [])) left
  | standIn {c : StandIn} {xs : List Exchange} {left : Task}
    (h : Path (operation.member binding (standIn c)) xs left) :
      Noted binding operation (standIn c) (xs.map (Note.mk [])) left
  | report {id : TaskId} {ts now : List Task} {inner : List Note}
    (h : NotedAll binding operation 0 ts inner now) :
      Noted binding operation (group id false ts) (inner ++ [.report [] (operation.report id now)])
        (group id true now)
  | repeated {id : TaskId} {ts now : List Task} {inner : List Note}
    (h : NotedAll binding operation 0 ts inner now) :
      Noted binding operation (group id true ts) inner (group id true now)

/-- The same of members that follow each other, by the index of the first one in its group. -/
inductive NotedAll (binding : Binding) (operation : Operation) :
    Nat → List Task → List Note → List Task → Prop where
  | nil (n : Nat) : NotedAll binding operation n [] [] []
  | cons {n : Nat} {t left : Task} {rest now : List Task} {own more : List Note}
    (head : Noted binding operation t own left)
      (tail : NotedAll binding operation (n + 1) rest more now) :
      NotedAll binding operation n (t :: rest) (own.map (Note.under [n]) ++ more) (left :: now)

end

mutual

/-- Whatever is exchanged in a use of a member can be noted. -/
theorem exists_noted {t left : Task} {xs : List Exchange}
    (h : Path (operation.member binding t) xs left) :
    ∃ log, Noted binding operation t log left ∧ log.map Note.exchange = xs := by
  cases t with
  | call c => exact ⟨_, .call h, Note.map_exchange_mk [] xs⟩
  | standIn c => exact ⟨_, .standIn h, Note.map_exchange_mk [] xs⟩
  | group id completed ts =>
    rw [Operation.member_group] at h
    obtain ⟨ys, zs, now, rfl, hall, hcomplete⟩ := path_bind_iff.mp h
    obtain ⟨inner, later, rfl, hnoted, rfl⟩ := exists_notedAll 0 hall
    cases completed with
    | true =>
      obtain ⟨rfl, rfl⟩ := path_pure_iff.mp hcomplete
      exact ⟨inner, .repeated hnoted, (List.append_nil _).symm⟩
    | false =>
      obtain ⟨_, rest, rfl, hdone⟩ := path_perform_bind_iff.mp hcomplete
      obtain ⟨rfl, rfl⟩ := path_pure_iff.mp hdone
      refine ⟨_, .report hnoted, ?_⟩
      rw [List.map_append, attemptsOf_eq]
      rfl

theorem exists_notedAll {ts past members : List Task} (n : Nat) {xs : List Exchange}
    (h : Path (operation.all binding past ts) xs members) :
    ∃ log now, members = past.reverse ++ now ∧ NotedAll binding operation n ts log now ∧
      log.map Note.exchange = xs := by
  cases ts with
  | nil =>
    rw [Operation.all_nil] at h
    obtain ⟨rfl, rfl⟩ := path_pure_iff.mp h
    exact ⟨[], [], (List.append_nil _).symm, .nil n, rfl⟩
  | cons t rest =>
    rw [Operation.all_cons] at h
    obtain ⟨ys, zs, left, rfl, hfirst, hmore⟩ := path_bind_iff.mp h
    obtain ⟨own, hown, rfl⟩ := exists_noted hfirst
    obtain ⟨more, now, rfl, hrest, rfl⟩ := exists_notedAll (n + 1) hmore
    refine ⟨_, left :: now, ?_, .cons hown hrest, ?_⟩
    · simp
    · rw [List.map_append, Note.map_exchange_under]

end

mutual

/-- Nothing else can be noted. -/
theorem Noted.path {t left : Task} {log : List Note} (h : Noted binding operation t log left) :
    Path (operation.member binding t) (log.map Note.exchange) left := by
  cases t with
  | call c =>
    cases h with
    | call h =>
      rw [Note.map_exchange_mk]
      exact h
  | standIn c =>
    cases h with
    | standIn h =>
      rw [Note.map_exchange_mk]
      exact h
  | group id completed ts =>
    rw [Operation.member_group]
    cases h with
    | report h =>
      refine path_bind_iff.mpr ⟨_, _, _, List.map_append, h.path [],
        path_perform_bind_iff.mpr ⟨(), [], ?_, .done _⟩⟩
      rw [attemptsOf_eq]
      rfl
    | repeated h => exact path_bind_iff.mpr ⟨_, [], _, (List.append_nil _).symm, h.path [], .done _⟩

theorem NotedAll.path {n : Nat} {ts now : List Task} {log : List Note}
    (h : NotedAll binding operation n ts log now) (past : List Task) :
    Path (operation.all binding past ts) (log.map Note.exchange) (past.reverse ++ now) := by
  cases ts with
  | nil =>
    cases h
    rw [Operation.all_nil, List.append_nil]
    exact .done _
  | cons t rest =>
    cases h with
    | @cons _ _ left _ now own more head tail =>
      rw [Operation.all_cons, List.map_append, Note.map_exchange_under]
      refine path_bind_iff.mpr ⟨_, _, left, rfl, head.path, ?_⟩
      have hrest := tail.path (left :: past)
      rw [List.reverse_cons, List.append_assoc] at hrest
      exact hrest

end

/-- The paths of a use are what can be noted of it. -/
theorem path_iff_noted {xs : List Exchange} :
    Path (operation.member binding t) xs left ↔ ∃ log, Noted binding operation t log left ∧
      log.map Note.exchange = xs := by
  constructor
  · exact exists_noted
  · intro h
    obtain ⟨log, hnoted, rfl⟩ := h
    exact hnoted.path

/-! ## What one task of a tree notes -/

theorem NotedAll.place {n : Nat} {ts now : List Task}
    (h : NotedAll binding operation n ts log now) :
    ∀ note ∈ log, ∃ k p, n ≤ k ∧ note.place = k :: p := by
  induction ts generalizing n log now with
  | nil =>
    cases h
    simp
  | cons t rest ih =>
    cases h with
    | cons head tail =>
      intro note hnote
      rcases List.mem_append.mp hnote with hnote | hnote
      · obtain ⟨inner, -, rfl⟩ := List.mem_map.mp hnote
        exact ⟨n, inner.place, Nat.le_refl n, rfl⟩
      · obtain ⟨k, p, hk, hp⟩ := ih tail note hnote
        exact ⟨k, p, by omega, hp⟩

theorem NotedAll.place_ne_nil {n : Nat} {ts now : List Task}
    (h : NotedAll binding operation n ts log now) : ∀ note ∈ log, note.place ≠ [] := by
  intro note hnote hp
  obtain ⟨k, p, -, hplace⟩ := h.place note hnote
  rw [hp] at hplace
  cases hplace

/-- The notes of one member stand together. -/
theorem NotedAll.split {n k : Nat} {ts now : List Task}
    (h : NotedAll binding operation n ts log now) (ht : ts[k]? = some t) :
    ∃ before own after left, log = before ++ own.map (Note.under [n + k]) ++ after ∧
      Noted binding operation t own left ∧
      now[k]? = some left ∧ ∀ note ∈ before ++ after, ∀ p, note.place ≠ (n + k) :: p := by
  induction k generalizing n ts log now with
  | zero =>
    cases h with
    | nil => cases ht
    | @cons _ _ left _ _ own more head tail =>
      cases ht
      refine ⟨[], own, more, left, rfl, head, rfl, ?_⟩
      intro note hnote p hp
      obtain ⟨k, q, hk, hq⟩ := tail.place note hnote
      rw [hp] at hq
      injection hq
      omega
  | succ k ih =>
    cases h with
    | nil => cases ht
    | @cons _ _ left _ _ first more head tail =>
      obtain ⟨before, own, after, kept, rfl, hnoted, hkept, hothers⟩ := ih tail ht
      have hindex : n + 1 + k = n + (k + 1) := by omega
      rw [hindex] at hothers ⊢
      refine ⟨first.map (Note.under [n]) ++ before, own, after, kept,
        by simp only [List.append_assoc], hnoted, hkept, ?_⟩
      intro note hnote p hp
      rw [List.append_assoc] at hnote
      rcases List.mem_append.mp hnote with hnote | hnote
      · obtain ⟨inner, -, rfl⟩ := List.mem_map.mp hnote
        injection hp
        omega
      · exact hothers note hnote p hp

/-- Only a group has members, and its notes are those of its members and its own report where it
makes one. -/
theorem Noted.of_members {n : Nat} (h : Noted binding operation t log left)
    (hs : t.members[n]? = some s) :
    ∃ id now inner own, left = group id true now ∧
      NotedAll binding operation 0 t.members inner now ∧ log = inner ++ own ∧
      ∀ note ∈ own, note.place = [] := by
  cases h with
  | call => cases hs
  | standIn => cases hs
  | @report id _ now inner h =>
    exact ⟨id, now, inner, [.report [] (operation.report id now)], rfl, h, rfl,
      by simp [Note.report]⟩
  | @repeated id _ now _ h => exact ⟨id, now, log, [], rfl, h, (List.append_nil log).symm, by simp⟩

/-- What a task of a tree notes stands together in what the tree notes, and everything else is noted
elsewhere. -/
theorem Noted.at {p : List Nat} (h : Noted binding operation t log left) (hs : at? p t = some s) :
    ∃ before own after kept, log = before ++ own.map (Note.under p) ++ after ∧
      Noted binding operation s own kept ∧
      at? p left = some kept ∧ ∀ note ∈ before ++ after, ¬ p <+: note.place := by
  induction p generalizing t log left with
  | nil =>
    cases hs
    refine ⟨[], log, [], left, ?_, h, rfl, ?_⟩
    · rw [Note.map_under_nil, List.append_nil, List.nil_append]
    · simp
  | cons n p ih =>
    obtain ⟨m, hm, hp⟩ := Option.bind_eq_some_iff.mp hs
    obtain ⟨id, now, inner, report, rfl, hall, rfl, hreport⟩ := h.of_members hm
    obtain ⟨before, own, after, later, rfl, hnoted, hlater, hothers⟩ := hall.split hm
    obtain ⟨front, deep, back, kept, rfl, hdeep, hkept, hnone⟩ := ih hnoted hp
    rw [Nat.zero_add] at hothers ⊢
    refine ⟨before ++ front.map (Note.under [n]), deep,
      back.map (Note.under [n]) ++ after ++ report, kept, ?_, hdeep, ?_, ?_⟩
    · rw [List.map_append, List.map_append, Note.map_under_under]
      simp only [List.append_assoc]
      rfl
    · rw [at?, members, hlater]
      exact hkept
    · intro note hnote
      -- A note of the same member is elsewhere in it; the others are not even in that member.
      have hmember : ∀ note ∈ before ++ after, ¬ n :: p <+: note.place := by
        intro note hnote hprefix
        obtain ⟨q, hq⟩ := hprefix
        exact hothers note hnote (p ++ q) hq.symm
      rw [List.forall_mem_append] at hnone hmember
      simp only [List.mem_append] at hnote
      rcases hnote with (hnote | hnote) | (hnote | hnote) | hnote
      · exact hmember.1 note hnote
      · exact Note.not_prefix_under hnone.1 n note hnote
      · exact Note.not_prefix_under hnone.2 n note hnote
      · exact hmember.2 note hnote
      · rw [hreport note hnote]
        simp

/-! ## What a use makes of the tasks of a tree -/

/-- A call that owes an outcome reports one. -/
theorem Noted.completed {c : CallTask} (hc : c.reported = false)
    (h : Noted binding operation (.call c) log left) :
    ∃ o, o.task = c.id ∧ .report [] (.completed o) ∈ log := by
  cases h with
  | @call _ xs _ h =>
    have hreport : ∃ o : Outcome, o.task = c.id ∧ ⟨.emit (.completed o), ()⟩ ∈ xs := by
      cases operation with
      | invoke =>
        obtain ⟨i, rfl, rfl, -⟩ := path_runIsolated_call h
        exact ⟨i.outcome, rfl, by simp [Invocation.exchanges, CallTask.reporting]⟩
      | abandon reason =>
        obtain ⟨later, habandon, -⟩ := path_bind_pure_iff.mp h
        obtain ⟨endedAt, rfl, -⟩ := (CallTask.path_complete_iff hc).mp habandon
        exact ⟨c.outcome [] (.error (CallError.panicked reason)) endedAt, rfl,
          by simp [CallTask.reporting]⟩
    obtain ⟨o, ho, hmem⟩ := hreport
    exact ⟨o, ho, List.mem_map_of_mem hmem⟩

/-- A group that has not reported does so last of all, and nothing before it is noted at its own
place. -/
theorem Noted.reported {ts : List Task} (h : Noted binding operation (group id false ts) log left) :
    ∃ inner now, log = inner ++ [.report [] (operation.report id now)] ∧ left = group id true now ∧
      ∀ note ∈ inner, note.place ≠ [] := by
  cases h with
  | @report _ _ now inner h => exact ⟨inner, now, rfl, rfl, h.place_ne_nil⟩

/-- A group that has reported stays as it is, and nothing is noted at its own place. -/
theorem Noted.quiet {ts : List Task} (h : Noted binding operation (group id true ts) log left) :
    (∃ now, left = group id true now) ∧ ∀ note ∈ log, note.place ≠ [] := by
  cases h with
  | @repeated _ _ now _ h => exact ⟨⟨now, rfl⟩, h.place_ne_nil⟩

/-- What a task of a tree notes at its own place is noted of the tree at the place of the task. -/
theorem Noted.mem_of_at {p : List Nat} (h : Noted binding operation t log left)
    (hs : at? p t = some s) :
    ∃ own kept, Noted binding operation s own kept ∧ ∀ e, .report [] e ∈ own →
      .report p e ∈ log := by
  obtain ⟨before, own, after, kept, rfl, hown, -, -⟩ := h.at hs
  refine ⟨own, kept, hown, ?_⟩
  intro e hmem
  have hplace : Note.under p (.report [] e) = .report p e := by
    rw [Note.under_report, List.append_nil]
  rw [← hplace]
  exact List.mem_append_left after (List.mem_append_right before (List.mem_map_of_mem hmem))

/-! ## Uses of a tree -/

/-- A tree that nobody has used: no group in it has reported, and every call in it owes an
outcome. -/
structure New (t : Task) : Prop where
  unreported : t.Unreported
  owing : ∀ c ∈ t.calls, c.reported = false

theorem unreported_of_getElem? {ts : List Task} {n : Nat} (hts : UnreportedAll ts)
    (ht : ts[n]? = some t) : t.Unreported := by
  induction ts generalizing n with
  | nil => cases ht
  | cons m rest ih =>
    cases n with
    | zero =>
      cases ht
      exact hts.1
    | succ n => exact ih hts.2 ht

theorem calls_subset_of_getElem? {ts : List Task} {n : Nat} (ht : ts[n]? = some t) :
    t.calls ⊆ callsOf ts := by
  induction ts generalizing n with
  | nil => cases ht
  | cons m rest ih =>
    cases n with
    | zero =>
      cases ht
      exact List.subset_append_left _ _
    | succ n =>
      have hrest : callsOf rest ⊆ callsOf (m :: rest) := List.subset_append_right _ _
      exact List.Subset.trans (ih ht) hrest

/-- Every part of a new tree is new. -/
theorem New.at {p : List Nat} (h : New t) (hs : at? p t = some s) : New s := by
  induction p generalizing t with
  | nil =>
    cases hs
    exact h
  | cons n p ih =>
    obtain ⟨m, hm, hp⟩ := Option.bind_eq_some_iff.mp hs
    cases t with
    | call c => cases hm
    | standIn c => cases hm
    | group id completed ts =>
      refine ih ⟨unreported_of_getElem? h.unreported.2 hm, ?_⟩ hp
      intro c hc
      exact h.owing c (calls_subset_of_getElem? hm hc)

def perform (binding : Binding) : Operation → Task → Program (Ending × Task)
  | .invoke, t => t.invoke binding
  | .abandon reason, t => do pure (.returned, ← t.abandon reason)

/-- A group is used as if it were a member: it never panics. -/
theorem path_member_of_perform {completed : Bool} {ts : List Task} {xs : List Exchange}
    {ending : Ending}
    (h : Path (perform binding operation (group id completed ts)) xs (ending, left)) :
    Path (operation.member binding (group id completed ts)) xs left ∧ ∃ completed ts,
      left = group id completed ts := by
  have hpath : Path (operation.member binding (group id completed ts)) xs left := by
    cases operation with
    | invoke =>
      have hreturned : ending = .returned := by
        rw [perform, invoke] at h
        obtain ⟨_, _, now, -, -, hreport⟩ := path_bind_iff.mp h
        obtain ⟨t, -, hpair⟩ := path_bind_pure_iff.mp hreport
        exact (Prod.mk.inj hpair).1
      subst hreturned
      exact path_runIsolated_of_returned h
    | abandon reason =>
      obtain ⟨t, habandon, hpair⟩ := path_bind_pure_iff.mp h
      obtain ⟨rfl, rfl⟩ := Prod.mk.inj hpair
      exact habandon
  refine ⟨hpath, ?_⟩
  obtain ⟨log, hnoted, -⟩ := path_iff_noted.mp hpath
  cases hnoted with
  | report => exact ⟨_, _, rfl⟩
  | repeated => exact ⟨_, _, rfl⟩

/-- The notes of a use are of all that was exchanged in it. -/
structure Noting (binding : Binding) (u : Use Task) (log : List Note) : Prop where
  noted : Noted binding u.operation u.before log u.after
  exchanged : log.map Note.exchange = u.exchanges

/-- Nothing is noted at a place where the task itself has noted nothing. -/
theorem place_ne_of_parts {before own after : List Note} {p : List Nat}
    (hown : ∀ note ∈ own, note.place ≠ [])
    (hothers : ∀ note ∈ before ++ after, ¬ p <+: note.place) :
    ∀ note ∈ before ++ own.map (Note.under p) ++ after, note.place ≠ p := by
  intro note hnote hplace
  simp only [List.mem_append] at hnote hothers
  have hprefix : p <+: note.place := hplace ▸ List.prefix_rfl
  rcases hnote with (hnote | hnote) | hnote
  · exact hothers note (.inl hnote) hprefix
  · obtain ⟨inner, hinner, rfl⟩ := List.mem_map.mp hnote
    apply hown inner hinner
    simpa [Note.under] using hplace
  · exact hothers note (.inr hnote) hprefix

/-- A group that has reported is not heard of again. -/
theorem quiet_of_uses {us : List (Use Task)} {logs : List (List Note)} {p : List Nat}
    {ts : List Task} (h : Uses (perform binding) t us left)
    (hlogs : List.Forall₂ (Noting binding) us logs) (hp : at? p t = some (group id true ts)) :
    ∀ note ∈ logs.flatten, note.place ≠ p := by
  induction h generalizing logs ts with
  | nil t =>
    cases hlogs
    simp
  | cons head tail ih =>
    cases hlogs with
    | @cons _ log _ logs hlog hlogs =>
      obtain ⟨before, own, after, kept, rfl, hown, hkept, hothers⟩ := hlog.noted.at hp
      obtain ⟨⟨now, rfl⟩, hquiet⟩ := hown.quiet
      intro note hnote
      rw [List.flatten_cons] at hnote
      rcases List.mem_append.mp hnote with hnote | hnote
      · exact place_ne_of_parts hquiet hothers note hnote
      · exact ih hlogs hkept note hnote

/-- All that a tree is used for can be noted. -/
theorem exists_logs {completed : Bool} {ts : List Task} {us : List (Use Task)}
    (h : Uses (perform binding) (group id completed ts) us left) :
    ∃ logs, List.Forall₂ (Noting binding) us logs := by
  generalize hroot : group id completed ts = root at h
  induction h generalizing completed ts with
  | nil t => exact ⟨[], .nil⟩
  | cons head tail ih =>
    subst hroot
    obtain ⟨hpath, _, _, rfl⟩ := path_member_of_perform head
    obtain ⟨log, hnoted, hexchanged⟩ := path_iff_noted.mp hpath
    obtain ⟨logs, hlogs⟩ := ih rfl
    exact ⟨log :: logs, .cons ⟨hnoted, hexchanged⟩ hlogs⟩

/-- A group's only report in some notes of a tree, what was noted earlier and later, and how the
members of the group were at that moment. -/
structure Reports (t : Task) (p : List Nat) (operation : Operation) (earlier later : List Note)
    (now : List Task) (error : Option CallError) : Prop where
  once : ∀ note ∈ earlier ++ later, note.place ≠ p
  /-- A group that is invoked reports the first error of its members, if they have any. -/
  invoked : operation = .invoke → error = now.findSome? lastError
  /-- A group that is abandoned always reports an error. -/
  abandoned : ∀ reason, operation = .abandon reason →
    error = some ((now.findSome? lastError).getD (CallError.panicked reason))
  calls : ∀ q c, at? (p ++ q) t = some (call c) → ∃ o, o.task = c.id ∧
    .report (p ++ q) (.completed o) ∈ earlier
  groups : ∀ q id completed ts, q ≠ [] → at? (p ++ q) t = some (group id completed ts) →
    ∃ number attempts error, .report (p ++ q) (.groupCompleted id number attempts error) ∈ earlier

theorem Reports.append {p : List Nat} {earlier later more : List Note} {now : List Task}
    {error : Option CallError} (h : Reports t p operation earlier later now error)
    (hmore : ∀ note ∈ more, note.place ≠ p) :
    Reports t p operation earlier (later ++ more) now error where
  once := by
    intro note hnote
    rw [← List.append_assoc] at hnote
    rcases List.mem_append.mp hnote with hnote | hnote
    · exact h.once note hnote
    · exact hmore note hnote
  invoked := h.invoked
  abandoned := h.abandoned
  calls := h.calls
  groups := h.groups

/-- In the first use of a tree every group of it reports. -/
theorem Noted.reports {p : List Nat} {completed : Bool} {ts : List Task} (hnew : New t)
    (h : Noted binding operation t log left) (hp : at? p t = some (group id completed ts)) :
    ∃ earlier now later, log = earlier ++ .report p (operation.report id now) :: later ∧
      at? p left = some (group id true now) ∧
      Reports t p operation earlier later now (operation.error now) := by
  have hgroup := hnew.at hp
  obtain ⟨rfl, -⟩ := hgroup.unreported
  obtain ⟨before, own, after, kept, rfl, hown, hkept, hothers⟩ := h.at hp
  obtain ⟨inner, now, rfl, rfl, hinner⟩ := hown.reported
  have hat : ∀ q, at? (p ++ q) t = at? q (group id false ts) := by
    intro q
    rw [at?_append, hp, Option.bind_some]
  -- The group's own report is the last of its notes, so what is noted below it is noted earlier.
  have hearlier : ∀ q e, q ≠ [] → .report q e ∈ inner ++ [.report [] (operation.report id now)] →
      .report (p ++ q) e ∈ before ++ inner.map (Note.under p) := by
    intro q e hq hmem
    have hmem : .report q e ∈ inner := by simpa [Note.report, hq] using hmem
    exact List.mem_append_right before (List.mem_map_of_mem hmem)
  have hplace : Note.under p (.report [] (operation.report id now)) =
      .report p (operation.report id now) := by
    rw [Note.under_report, List.append_nil]
  refine ⟨before ++ inner.map (Note.under p), now, after, ?_, hkept, ?_⟩
  · simp only [List.map_append, List.map_cons, List.map_nil, hplace, List.append_assoc,
      List.cons_append, List.nil_append]
  · constructor
    case once => exact place_ne_of_parts hinner hothers
    case invoked =>
      intro hinvoke
      rw [hinvoke, Operation.error]
    case abandoned =>
      intro reason habandon
      rw [habandon, Operation.error]
    case calls =>
      intro q c hq
      rw [hat] at hq
      have hne : q ≠ [] := by
        intro hnil
        rw [hnil] at hq
        cases hq
      obtain ⟨notes, kept, hnoted, hmem⟩ := hown.mem_of_at hq
      obtain ⟨o, ho, hcompleted⟩ := hnoted.completed ((hgroup.at hq).owing c List.mem_cons_self)
      exact ⟨o, ho, hearlier q _ hne (hmem _ hcompleted)⟩
    case groups =>
      intro q below completed members hne hq
      rw [hat] at hq
      obtain ⟨rfl, -⟩ := (hgroup.at hq).unreported
      obtain ⟨notes, kept, hnoted, hmem⟩ := hown.mem_of_at hq
      obtain ⟨front, held, rfl, -, -⟩ := hnoted.reported
      have hlast : .report [] (operation.report below held) ∈ front ++
          [.report [] (operation.report below held)] := List.mem_concat_self
      exact ⟨_, _, _, hearlier q _ hne (hmem _ hlast)⟩

/-- Whatever is done with a new tree, and whatever the ledger does: every group of the tree reports
exactly once if anything is done at all, and it does so in the first use, after every call below it
has reported an outcome and every group below it has reported; it tells the number of its members
and the sum of the attempts that they then count, and a group that is abandoned always tells an
error. A tree that is a call alone has no group in it. -/
theorem reports_of_uses {ts : List Task} (hnew : New (group id false ts)) {us : List (Use Task)}
    (h : Uses (perform binding) (group id false ts) us left) :
    ∃ logs, List.Forall₂ (Noting binding) us logs ∧
      ∀ u rest, us = u :: rest → ∀ p gid completed members,
        at? p (group id false ts) = some (group gid completed members) →
        ∃ earlier now error later, logs.flatten = earlier ++
          .report p (.groupCompleted gid now.length (now.map attempts).sum error) :: later ∧
          at? p u.after = some (group gid true now) ∧
            Reports (group id false ts) p u.operation earlier later now error := by
  obtain ⟨logs, hlogs⟩ := exists_logs h
  refine ⟨logs, hlogs, ?_⟩
  rintro u rest rfl p gid completed members hp
  cases h with
  | cons head tail =>
    cases hlogs with
    | cons hlog hlogs =>
      obtain ⟨earlier, now, later, rfl, hkept, hreports⟩ := hlog.noted.reports hnew hp
      have hquiet := quiet_of_uses tail hlogs hkept
      refine ⟨earlier, now, _, later ++ _, ?_, hkept, hreports.append hquiet⟩
      rw [List.flatten_cons, List.append_assoc]
      rfl

/-- The group around a call, in a tree that is abandoned before it is invoked and again after it. -/
theorem reports_of_uses_nested :
    New nested ∧ ∃ us left, Uses (perform submitting) nested us left ∧
      us.map Use.operation = [.abandon "stopped", .invoke, .abandon "again"] ∧
      ∃ logs earlier now error later, List.Forall₂ (Noting submitting) us logs ∧
        logs.flatten = earlier ++ .report [2]
          (.groupCompleted ⟨Ulid.ofNat 4⟩ now.length (now.map attempts).sum error) :: later ∧
        Reports nested [2] (.abandon "stopped") earlier later now error := by
  have hnew : New nested := by
    refine ⟨⟨rfl, ⟨rfl, trivial⟩, trivial, ⟨rfl, trivial, trivial⟩, trivial⟩, ?_⟩
    intro c hc
    simp only [nested, calls, callsOf, List.nil_append, List.singleton_append, List.append_nil,
      List.mem_cons, List.not_mem_nil, or_false] at hc
    rcases hc with rfl | rfl <;> rfl
  obtain ⟨us, left, h, hoperations⟩ :=
    Uses.exists_of (perform submitting) [.abandon "stopped", .invoke, .abandon "again"] nested
  obtain ⟨logs, hlogs, hreports⟩ := reports_of_uses hnew h
  cases us with
  | nil => cases hoperations
  | cons u rest =>
    have hfirst : u.operation = .abandon "stopped" := (List.cons.inj hoperations).1
    obtain ⟨earlier, now, error, later, hnotes, -, hreport⟩ := hreports u rest rfl [2] _ _ _ rfl
    rw [hfirst] at hreport
    exact ⟨hnew, _, left, h, hoperations, logs, earlier, now, error, later, hlogs, hnotes, hreport⟩

end Task

end LedgerBench
