import LedgerBench.Proofs.Run.Accepted
import LedgerBench.Proofs.Run.Expansion
import LedgerBench.Proofs.Run.Numbers
import LedgerBench.Proofs.Run.Variables
import LedgerBench.Proofs.Task.Replay
/-!
Runs that leave nothing behind but numbers.

A bench keeps its sequence, its draws, its identifiers and its ledger from one run to the next, and
each run knows no variables when it starts. So what a run does depends on the runs before it only
through where they left the sequence and the draws, and through what the ledger says to it. What is
proved:
  1. `InTurn`: a complete run with one worker as one list of invocations, with what they send, hear
     and report.
  2. `InTurn.alike`: two such runs of the same calls from the same scope do the same and report the
     same, where they hear the same.
  3. `isolated_of_performs`: a batch performed after another one, and the same batch performed by
     another bench whose sequence stands where the first batch left it.
-/

namespace LedgerBench

open Program

/-! ## Without names -/

/-- A request, without whose it is. -/
def Request.anonymous (r : Request) : Request := { r with task := default }

def CallResponse.anonymous (r : CallResponse) : CallResponse := { r with task := default }

def FailedInvocation.anonymous (f : FailedInvocation) : FailedInvocation :=
  { f with task := default }

/-- Statistics that list the same, but for whose it is. -/
structure RunStatistics.Alike (stats other : RunStatistics) : Prop where
  responses : stats.responses.map CallResponse.anonymous =
    other.responses.map CallResponse.anonymous
  failures : stats.failures.map FailedInvocation.anonymous =
    other.failures.map FailedInvocation.anonymous
  transientErrors : stats.transientErrors.map FailedInvocation.anonymous =
    other.transientErrors.map FailedInvocation.anonymous

/-- Two results of performances that are the same error, or statistics that list the same. -/
def AlikeResults : Except RunError RunStatistics → Except RunError RunStatistics → Prop
  | .ok stats, .ok other => stats.Alike other
  | .error e, .error other => e = other
  | _, _ => False

namespace Deed

/-- The call that ended so, without a name. -/
def ended (d : Deed) : Ended where
  call := { id := default, spec := d.spec }
  retried := d.retried

/-- The requests sent for it, without a name. -/
def requests (targets : List Target) (d : Deed) : List Request :=
  List.replicate d.retried.attempts { task := default, function := d.spec.function,
                                      args := d.args, targets }

end Deed

namespace Invocation

variable {binding : Binding} (i : Invocation binding)

theorem anonymous_requests :
    (requests i.exchanges).map Request.anonymous = i.deed.requests binding.targets := by
  rw [i.requests_exchanges, List.map_replicate]
  rfl

theorem anonymous_response? :
    i.ended.response?.map CallResponse.anonymous = i.deed.ended.response? := by
  unfold Ended.response? ended Deed.ended deed
  cases i.retried.result <;> rfl

theorem anonymous_failure? :
    i.ended.failure?.map FailedInvocation.anonymous = i.deed.ended.failure? := by
  unfold Ended.failure? ended Deed.ended deed
  cases i.retried.result <;> rfl

theorem anonymous_transientErrors :
    i.ended.transientErrors.map FailedInvocation.anonymous = i.deed.ended.transientErrors := by
  unfold Ended.transientErrors
  rw [List.mapIdx_eq_zipIdx_map, List.mapIdx_eq_zipIdx_map, List.map_map]
  rfl

/-- What is listed of some invocations, without names, is what is listed of their deeds. -/
theorem anonymous_lists (js : List (Invocation binding)) :
    ((js.map ended).filterMap Ended.response?).map CallResponse.anonymous =
      (js.map deed).filterMap (fun d => d.ended.response?) ∧
      ((js.map ended).filterMap Ended.failure?).map FailedInvocation.anonymous =
        (js.map deed).filterMap (fun d => d.ended.failure?) ∧
      (((js.map ended).filter fun e => !e.panicked).flatMap Ended.transientErrors).map
        FailedInvocation.anonymous =
        ((js.map deed).filter fun d => !d.ended.panicked).flatMap fun d =>
          d.ended.transientErrors := by
  refine ⟨?_, ?_, ?_⟩
  · rw [List.map_filterMap, List.filterMap_map, List.filterMap_map]
    exact congrArg (js.filterMap ·) (funext anonymous_response?)
  · rw [List.map_filterMap, List.filterMap_map, List.filterMap_map]
    exact congrArg (js.filterMap ·) (funext anonymous_failure?)
  · rw [List.map_flatMap, List.filter_map, List.filter_map, List.flatMap_map, List.flatMap_map]
    exact List.flatMap_congr fun j _ => j.anonymous_transientErrors

/-- The deeds of invocations with equal bindings. -/
theorem deeds_eq_of_binding {other : Binding} (hbinding : other = binding)
    {is : List (Invocation binding)} {js : List (Invocation other)} {answers : List Said}
    (hspecs : (is.map fun i => i.call.spec) = js.map fun j => j.call.spec)
    (hargs : is.map args = js.map args) (his : said (is.flatMap exchanges) <+: answers)
    (hjs : said (js.flatMap exchanges) <+: answers) : is.map deed = js.map deed := by
  subst hbinding
  exact deeds_eq hspecs hargs his hjs

end Invocation

/-! ## Runs in turn -/

/-- What the ledger said to some groups, in order. -/
def Act.said (acts : List Act) : List Said := Program.said (acts.map Act.exchange)

/-- A client does not notice the reports of groups. -/
theorem Client.Gets.of_reports {σ : Type} {service : Service σ} {binding : Binding}
    {client after : Client σ} {rounds : List Nat} {is : Nat → List (Invocation binding)}
    {exchanges : Nat → List Exchange}
    (hexchanges : ∀ g ∈ rounds, ∃ id, exchanges g = (is g).flatMap Invocation.exchanges ++
      [Task.groupReport id (is g)])
    (h : Client.Gets service client (rounds.flatMap exchanges) after) :
    Client.Gets service client ((rounds.flatMap is).flatMap Invocation.exchanges) after := by
  induction rounds generalizing client with
  | nil => exact h
  | cons g rest ih =>
    obtain ⟨⟨id, hfirst⟩, hrest⟩ := List.forall_mem_cons.mp hexchanges
    rw [List.flatMap_cons, hfirst, List.append_assoc] at h
    obtain ⟨mid, hgroup, htail⟩ := h.of_append
    rw [List.flatMap_cons, List.flatMap_append]
    exact hgroup.append (ih hrest htail.of_emit)

namespace Bench

variable {σ : Type} {b : Bench σ} {s : Session σ} {specs : List CallSpec} {mode : CallMode}
  {startedAt : Timestamp} {start later : Course σ} {acts : List Act}

/-- A run as invocations of its calls, one after the other. -/
structure InTurn (b : Bench σ) (s : Session σ) (specs : List CallSpec) (mode : CallMode)
    (acts : List Act) (later : Course σ) (js : List (Invocation (b.binding mode))) : Prop where
  specs : (js.map fun j => j.call.spec) = (List.range b.config.iterations).flatMap fun _ => specs
  requests : Act.requests acts = Program.requests (js.flatMap Invocation.exchanges)
  said : Act.said acts = Program.said (js.flatMap Invocation.exchanges)
  expanded : s.scope.expandEach (js.map fun j => j.call.spec.args) =
    (js.map Invocation.args, later.world.scope)
  responses : later.statistics.responses = (js.map Invocation.ended).filterMap Ended.response?
  failures : later.statistics.failures = (js.map Invocation.ended).filterMap Ended.failure?
  transientErrors : later.statistics.transientErrors =
    ((js.map Invocation.ended).filter fun e => !e.panicked).flatMap Ended.transientErrors

/-- A complete run whose groups acted in turn. -/
theorem Complete.exists_inTurn (h : b.Complete s specs mode start acts later)
    (hbegun : b.Begun s specs mode startedAt start) (hruns : Course.Runs b.ledger start acts later)
    (hstaffed : start.Staffed 1) (hturn : acts.Pairwise fun a b => a.group ≤ b.group) :
    ∃ js, b.InTurn s specs mode acts later js := by
  obtain ⟨is, hcalls, hxs, hexchanges, hread⟩ := h.exists_rounds hturn
  have houtcomes := outcomes_of_exchanges (hread _ fun _ _ => rfl)
  have hgets := h.gets hbegun hruns hstaffed
  rw [hexchanges] at hgets
  have hexpanded := Invocation.expandEach_of_gets (hgets.of_reports hxs)
  obtain ⟨hresponses, hfailures, herrors⟩ :=
    lists_of_outcomes ((List.range b.config.iterations).flatMap is)
  have hstatistics := h.statistics
  rw [hbegun.statistics, RunStatistics.recordAll_eq, houtcomes] at hstatistics
  refine ⟨(List.range b.config.iterations).flatMap is, ?_, ?_, hread _ fun _ _ => rfl,
    hexpanded, ?_, ?_, ?_⟩
  · rw [List.map_flatMap]
    refine List.flatMap_congr fun g hg => ?_
    rw [← map_spec_callsOf s specs g, ← hcalls g hg, List.map_map]
    rfl
  · have hrequests := hread Exchange.request? fun _ _ => rfl
    rw [List.filterMap_map] at hrequests
    exact hrequests
  · rw [hstatistics]
    exact hresponses
  · rw [hstatistics]
    exact hfailures
  · rw [hstatistics]
    exact herrors

variable {τ : Type} {other : Bench τ} {s' : Session τ} {acts' : List Act} {later' : Course τ}
  {js : List (Invocation (b.binding mode))} {ks : List (Invocation (other.binding mode))}

/-- Two runs in turn of the same calls from the same scope, where they hear the same. -/
theorem InTurn.alike (h : b.InTurn s specs mode acts later js)
    (h' : other.InTurn s' specs mode acts' later' ks) (hconfig : other.config = b.config)
    (hbinding : other.binding mode = b.binding mode) (hscope : s.scope = s'.scope)
    {answers : List Said} (hsaid : Act.said acts <+: answers)
    (hsaid' : Act.said acts' <+: answers) :
    (Act.requests acts).map Request.anonymous = (Act.requests acts').map Request.anonymous ∧
      later.statistics.Alike later'.statistics ∧ later.world.scope = later'.world.scope := by
  have hspecs : (js.map fun j => j.call.spec) = ks.map fun k => k.call.spec := by
    rw [h.specs, h'.specs, hconfig]
  have hexpanded := h.expanded
  have hspecArgs : (js.map fun j => j.call.spec.args) = ks.map fun k => k.call.spec.args := by
    have hargs := congrArg (List.map CallSpec.args) hspecs
    rwa [List.map_map, List.map_map] at hargs
  rw [hscope, hspecArgs, h'.expanded] at hexpanded
  obtain ⟨hargs, hlater⟩ := Prod.mk.inj hexpanded
  have hdeeds :=
    Invocation.deeds_eq_of_binding hbinding hspecs hargs.symm (h.said ▸ hsaid) (h'.said ▸ hsaid')
  have hrequests : ∀ {binding : Binding} (is : List (Invocation binding)),
      (Program.requests (is.flatMap Invocation.exchanges)).map Request.anonymous
      = (is.map Invocation.deed).flatMap (Deed.requests binding.targets) := by
    intro binding is
    unfold Program.requests
    rw [List.filterMap_flatMap, List.map_flatMap, List.flatMap_map]
    exact List.flatMap_congr fun i _ => i.anonymous_requests
  obtain ⟨hresponses, hfailures, herrors⟩ := Invocation.anonymous_lists js
  obtain ⟨hresponses', hfailures', herrors'⟩ := Invocation.anonymous_lists ks
  refine ⟨?_, ⟨?_, ?_, ?_⟩, hlater.symm⟩
  · have htargets : (other.binding mode).targets = (b.binding mode).targets :=
      congrArg Binding.targets hbinding
    rw [h.requests, h'.requests, hrequests, hrequests, hdeeds, htargets]
  · rw [h.responses, h'.responses, hresponses, hresponses', hdeeds]
  · rw [h.failures, h'.failures, hfailures, hfailures', hdeeds]
  · rw [h.transientErrors, h'.transientErrors, herrors, herrors', hdeeds]

/-! ## Performances -/

/-- Whether a run can begin is a matter of its configuration and of how many calls it has. -/
theorem error_of_begin (hconfig : other.config = b.config) {e : RunError}
    (h : b.begin s specs mode startedAt = .error e) (s' : Session τ) (time : Timestamp) :
    other.begin s' specs mode time = .error e := by
  have hobstacle : other.obstacle? specs.length = b.obstacle? specs.length := by
    unfold obstacle?
    rw [hconfig]
  rw [begin_eq_error_iff] at h ⊢
  rwa [hobstacle]

/-- A run with one worker that has stopped is one in turn, and it has statistics. -/
theorem exists_inTurn_of_stopped {p : BenchPlan σ} (hp : p.build = .ok b)
    (hone : b.config.concurrency = 1) (hb : b.begin s specs mode startedAt = .ok start)
    (hruns : Course.Runs b.ledger start acts later) (hstopped : later.Stopped b.ledger) :
    later.rejected = none ∧ ∃ js, b.InTurn s specs mode acts later js := by
  have hbegun := begun_of_begin hb
  have hline := in_line_of_begin (BenchPlan.limits_of_build hp).2 hb
  have hstaffed : start.Staffed 1 := by
    have h := hbegun.staffed
    rwa [hone] at h
  have hcomplete := hbegun.complete_of_stopped hline hruns hstopped
  exact ⟨hcomplete.accepted, hcomplete.exists_inTurn hbegun hruns hstaffed
    (hruns.in_turn hstaffed hline)⟩

/-- The bindings of two built benches with the same configuration and handlers. -/
theorem binding_eq_of_build {p : BenchPlan σ} {p' : BenchPlan τ} (hp : p.build = .ok b)
    (hp' : p'.build = .ok other) (hconfig : other.config = b.config)
    (hhandlers : other.handlers = b.handlers) (mode : CallMode) :
    other.binding mode = b.binding mode := by
  have hpolicy := BenchPlan.checkConfig_of_build hp'
  rw [hconfig, BenchPlan.checkConfig_of_build hp] at hpolicy
  unfold binding
  rw [hconfig, hhandlers, Except.ok.inj hpolicy]

/-- Two benches with one worker and the same configuration perform a batch alike, if they start with
the same sequence, draws and files and hear the same. -/
theorem Performs.alike {p : BenchPlan σ} {p' : BenchPlan τ} (hp : p.build = .ok b)
    (hp' : p'.build = .ok other) (hconfig : other.config = b.config)
    (hhandlers : other.handlers = b.handlers) (hone : b.config.concurrency = 1)
    (hscope : s.scope = s'.scope) {batch : String} {result result' : Except RunError RunStatistics}
    {left : Session σ} {left' : Session τ} {answers : List Said}
    (h : b.Performs s batch mode acts result left)
    (h' : other.Performs s' batch mode acts' result' left') (hsaid : Act.said acts <+: answers)
    (hsaid' : Act.said acts' <+: answers) :
    (Act.requests acts).map Request.anonymous = (Act.requests acts').map Request.anonymous ∧
      AlikeResults result result' ∧
      left.scope = left'.scope := by
  cases h with
  | unread hbatch =>
    cases h' with
    | unread hbatch' =>
      obtain rfl := Except.error.inj (hbatch.symm.trans hbatch')
      exact ⟨rfl, rfl, hscope⟩
    | unbegun hbatch' hb' => cases hbatch.symm.trans hbatch'
    | ran hbatch' hb' hr' hstopped' finishedAt' => cases hbatch.symm.trans hbatch'
  | unbegun hbatch hb =>
    cases h' with
    | unread hbatch' => cases hbatch.symm.trans hbatch'
    | unbegun hbatch' hb' =>
      obtain rfl := Except.ok.inj (hbatch.symm.trans hbatch')
      obtain rfl := Except.error.inj ((error_of_begin hconfig hb _ _).symm.trans hb')
      exact ⟨rfl, rfl, hscope⟩
    | ran hbatch' hb' hr' hstopped' finishedAt' =>
      obtain rfl := Except.ok.inj (hbatch.symm.trans hbatch')
      cases (error_of_begin hconfig hb _ _).symm.trans hb'
  | ran hbatch hb hr hstopped finishedAt =>
    cases h' with
    | unread hbatch' => cases hbatch.symm.trans hbatch'
    | unbegun hbatch' hb' =>
      obtain rfl := Except.ok.inj (hbatch.symm.trans hbatch')
      cases (error_of_begin hconfig.symm hb' _ _).symm.trans hb
    | ran hbatch' hb' hr' hstopped' finishedAt' =>
      obtain rfl := Except.ok.inj (hbatch.symm.trans hbatch')
      obtain ⟨hnone, js, hjs⟩ :=
        exists_inTurn_of_stopped hp hone hb (Course.runs_of_run hr) hstopped
      obtain ⟨hnone', ks, hks⟩ :=
        exists_inTurn_of_stopped hp' (hconfig ▸ hone) hb' (Course.runs_of_run hr') hstopped'
      obtain ⟨hrequests, hstatistics, hlater⟩ :=
        hjs.alike hks hconfig (binding_eq_of_build hp hp' hconfig hhandlers _) hscope hsaid hsaid'
      refine ⟨hrequests, ?_, ?_⟩
      · rw [conclude, hnone, conclude, hnone']
        exact ⟨hstatistics.responses, hstatistics.failures, hstatistics.transientErrors⟩
      · have hfiles : s.files = s'.files := congrArg Scope.files hscope
        simp only [Session.scope, Session.leave, Session.draw, hlater, hfiles]

/-- A batch performed after another one, by a bench with one worker. If the first is no batch,
nothing happened. The second run knows no variables, and wherever a new bench performs the second
batch with the sequence where the first left it, the same requests are sent in the same order and
the same is listed, but for the names of tasks, as long as both hear the same. -/
theorem isolated_of_performs {p : BenchPlan σ} {p' : BenchPlan τ} (hp : p.build = .ok b)
    (hp' : p'.build = .ok other) (hconfig : other.config = b.config)
    (hhandlers : other.handlers = b.handlers) (hone : b.config.concurrency = 1) {s₁ : Session σ}
    {batch : String} {result : Except RunError RunStatistics}
    (hfirst : b.Performs s batch mode acts result s₁) :
    (∀ cause, CallSpec.readBatch batch = .error cause → acts = [] ∧
      result = .error (.batch cause) ∧ s₁ = s ∧
      ∀ timeOfDay, b.runBatch s batch mode timeOfDay = (.error (.batch cause), s)) ∧
    (∀ specs mode startedAt start, b.begin s₁ specs mode startedAt = .ok start →
      start.world.scope.bindings = {} ∧ start.world.scope.sequence = s₁.sequence) ∧
    (∀ s' : Session τ, s'.sequence = s₁.sequence → s'.draws = s₁.draws → s'.files = s₁.files →
      ∀ batch₂ mode₂ acts₂ result₂ left acts' result' left',
        b.Performs s₁ batch₂ mode₂ acts₂ result₂ left →
        other.Performs s' batch₂ mode₂ acts' result' left' →
        ∀ answers, Act.said acts₂ <+: answers → Act.said acts' <+: answers →
          (Act.requests acts₂).map Request.anonymous = (Act.requests acts').map Request.anonymous ∧
            AlikeResults result₂ result' ∧
            left.sequence = left'.sequence) ∧
    ∀ batch₂ mode₂ timeOfDay, ∃ acts₂,
      b.Performs s₁ batch₂ mode₂ acts₂ (b.runBatch s₁ batch₂ mode₂ timeOfDay).1
        (b.runBatch s₁ batch₂ mode₂ timeOfDay).2 := by
  refine ⟨?_, ?_, ?_, ?_⟩
  · intro cause hcause
    cases hfirst with
    | unread hbatch =>
      obtain rfl := Except.error.inj (hbatch.symm.trans hcause)
      refine ⟨rfl, rfl, rfl, fun timeOfDay => ?_⟩
      rw [runBatch, hbatch]
    | unbegun hbatch hb => cases hbatch.symm.trans hcause
    | ran hbatch hb hr hstopped finishedAt => cases hbatch.symm.trans hcause
  · intro specs mode startedAt start hb
    rw [(begun_of_begin hb).world]
    exact ⟨rfl, rfl⟩
  · intro s' hsequence hdraws hfiles batch₂ mode₂ acts₂ result₂ left acts' result' left' h h'
      answers hsaid hsaid'
    have hscope : s₁.scope = s'.scope := by simp only [Session.scope, hsequence, hdraws, hfiles]
    obtain ⟨hrequests, hresults, hleft⟩ :=
      h.alike hp hp' hconfig hhandlers hone hscope h' hsaid hsaid'
    exact ⟨hrequests, hresults, congrArg Scope.sequence hleft⟩
  · have hiterations : 0 < b.config.iterations := (BenchPlan.limits_of_build hp).1 .iterations
    exact fun batch₂ mode₂ timeOfDay => performs_runBatch hp (by omega) s₁ batch₂ mode₂ timeOfDay

/-! ### A variable that is gone -/

/-- What comes of a run that follows a schedule to its end, where that is possible. -/
def perform? (b : Bench σ) (s : Session σ) (specs : List CallSpec) (mode : CallMode)
    (labels : List RunLabel) : Option (List Act × Except RunError RunStatistics × Session σ) :=
  match b.begin s specs mode ⟨0⟩ with
  | .error _ => none
  | .ok start =>
    match start.run b.ledger labels with
    | none => none
    | some later =>
      if later.isOver then some (start.history b.ledger labels, conclude later ⟨1⟩,
        (s.draw (b.identifiersPerRun specs)).leave later.world)
      else none

theorem performs_of_perform? {batch : String} (hbatch : CallSpec.readBatch batch = .ok specs)
    {labels : List RunLabel} {result : Except RunError RunStatistics} {left : Session σ}
    (h : b.perform? s specs mode labels = some (acts, result, left)) :
    b.Performs s batch mode acts result left := by
  unfold perform? at h
  split at h
  · cases h
  · rename_i start hb
    split at h
    · cases h
    · rename_i later hr
      split at h
      · rename_i hover
        obtain ⟨rfl, hrest⟩ := Prod.mk.inj (Option.some.inj h)
        obtain ⟨rfl, rfl⟩ := Prod.mk.inj hrest
        exact .ran hbatch hb hr (.inl hover) ⟨1⟩
      · cases h

def storeBatch : String := "[\x7b\"Func\":\"put\",\"Args\":[\"$set(id,k$seq())\"]\x7d]"

def readBackBatch : String := "[\x7b\"Func\":\"get\",\"Args\":[\"$\x7bid\x7d\",\"$seq()\"]\x7d]"

def storeSpecs : List CallSpec := [{ function := "put", args := ["$set(id,k$seq())"] }]

def readBackSpecs : List CallSpec := [{ function := "get", args := ["$\x7bid\x7d", "$seq()"] }]

/-- A schedule for one call without retries. -/
def once : List RunLabel :=
  [.submit, .work 0 .check, .work 0 .lock, .work 0 .receive] ++ List.replicate 9 (RunLabel.act 0) ++
    List.replicate 3 .record

/-- A run that stores a number, with a ledger that panics on this call. -/
def storeRun : Option (List Act × Except RunError RunStatistics × Session Nat) :=
  (serial recovering 1).perform? fresh storeSpecs .submit once

theorem isSome_storeRun : storeRun.isSome = true := by decide +kernel

/-- The session that it leaves. -/
def stored : Session Nat := (storeRun.get isSome_storeRun).2.2

def readBackRun : Option (List Act × Except RunError RunStatistics × Session Nat) :=
  (serial recovering 1).perform? stored readBackSpecs .submit once

theorem isSome_readBackRun : readBackRun.isSome = true := by decide +kernel

/-- A session of a new bench, with the sequence where the other one stands and its own names. -/
def elsewhere : Session Nat :=
  { fresh with sequence := stored.sequence, draws := stored.draws, files := stored.files }

def aloneRun : Option (List Act × Except RunError RunStatistics × Session Nat) :=
  (serial committing 1).perform? elsewhere readBackSpecs .submit once

theorem isSome_aloneRun : aloneRun.isSome = true := by decide +kernel

/-- What a ledger that commits every call says to one call. -/
def committed : List Said := [.inl (.answered { transactionId := "tx", code := .valid })]

/-- The second run does not find what the first one stored. It sends what a new bench sends, under
other names. -/
theorem isolated_of_performs_stored :
    ∃ acts result acts₂ result₂ left acts' result' left',
      (serialPlan recovering 1).build = .ok (serial recovering 1) ∧
      (serialPlan committing 1).build = .ok (serial committing 1) ∧
      (serial recovering 1).Performs fresh storeBatch .submit acts result stored ∧
      (serial recovering 1).Performs stored readBackBatch .submit acts₂ result₂ left ∧
      (serial committing 1).Performs elsewhere readBackBatch .submit acts' result' left' ∧
      (Act.requests acts₂).map Request.anonymous = (Act.requests acts').map Request.anonymous ∧
      AlikeResults result₂ result' ∧
      left.sequence = left'.sequence ∧
      (Act.requests acts).map Request.args = [["k1"]] ∧ (Act.requests acts₂).map Request.args =
        [["$\x7bid\x7d", "2"]] ∧
      (Act.requests acts₂).map Request.task ≠ (Act.requests acts').map Request.task := by
  have hbuild : (serialPlan recovering 1).build = .ok (serial recovering 1) :=
    build_serialPlan (by decide +kernel)
  have hbuild' : (serialPlan committing 1).build = .ok (serial committing 1) :=
    build_serialPlan (by decide +kernel)
  have hstore : CallSpec.readBatch storeBatch = .ok storeSpecs := by decide +kernel
  have hreadBack : CallSpec.readBatch readBackBatch = .ok readBackSpecs := by decide +kernel
  have hfirst := performs_of_perform? hstore (Option.some_get isSome_storeRun).symm
  have hsecond := performs_of_perform? hreadBack (Option.some_get isSome_readBackRun).symm
  have halone := performs_of_perform? hreadBack (Option.some_get isSome_aloneRun).symm
  obtain ⟨-, -, hisolated, -⟩ := isolated_of_performs hbuild hbuild' rfl rfl rfl hfirst
  obtain ⟨hrequests, hresults, hsequence⟩ :=
    hisolated elsewhere rfl rfl rfl _ _ _ _ _ _ _ _ hsecond halone committed
    (by decide +kernel) (by decide +kernel)
  exact ⟨_, _, _, _, _, _, _, _, hbuild, hbuild', hfirst, hsecond, halone, hrequests, hresults,
    hsequence, by decide +kernel,
    by decide +kernel, by decide +kernel⟩

end Bench

end LedgerBench
