import LedgerBench.Proofs.Ledger.Signature
import LedgerBench.Proofs.Task.Succeeded
/-!
What the standard handlers make of a simulated ledger's answers.

A simulated ledger signs every endorsement for the payload that it answers with, and where a call is
not to commit validly only the status of the last endorsement shows it. What is proved:
  1. `Ledger.Serves`: in which states a ledger answered the requests among some exchanges. A program
     that runs alone is answered so (`serves_exchanged`).
  2. `verified_response`: whatever the code, every endorsement of an answer is genuine and for the
     answer's payload.
  3. `accepted_response_iff`: the standard handlers accept an answer exactly where its code is valid
     and somebody endorses.
  4. `accepted_of_draw`: so a query that a simulated ledger answers succeeds exactly where the draw
     for its last attempt says so.
-/

namespace LedgerBench

open Program

/-! ## Requests and the states they are answered in -/

/-- What a ledger says to a submission that arrives in one state and is served in another. -/
def Ledger.submitReply {σ : Type} (ledger : Ledger σ) (request : Request) (arrived served : σ) :
    Reply TxResponse :=
  ((ledger.arrive .submit request arrived).service.submit request served).reply

/-- What a ledger says to a query that arrives in one state and is served in another. -/
def Ledger.queryReply {σ : Type} (ledger : Ledger σ) (request : Request) (arrived served : σ) :
    Reply QueryResponse :=
  ((ledger.arrive .query request arrived).service.query request served).reply

/-- The requests among some exchanges were answered by a ledger. The first of them arrived in the
first of some states, and so on; each may have been served in any other state. -/
inductive Ledger.Serves {σ : Type} (ledger : Ledger σ) : List σ → List Exchange → Prop where
  | nil : Serves ledger [] []
  | submit {states : List σ} {rest : List Exchange} (arrived served : σ) (request : Request)
      (tail : Serves ledger states rest) :
      Serves ledger (arrived :: states)
        (⟨.submit request, ledger.submitReply request arrived served⟩ :: rest)
  | query {states : List σ} {rest : List Exchange} (arrived served : σ) (request : Request)
      (tail : Serves ledger states rest) :
      Serves ledger (arrived :: states)
        (⟨.query request, ledger.queryReply request arrived served⟩ :: rest)
  | other {states : List σ} {x : Exchange} {rest : List Exchange} (h : x.said? = none)
      (tail : Serves ledger states rest) : Serves ledger states (x :: rest)

namespace Ledger.Serves

variable {σ : Type} {ledger : Ledger σ} {states : List σ} {xs : List Exchange}

/-- What a ledger said to a request is what it says to one that arrives in the state for it. -/
theorem forall₂_said (h : ledger.Serves states xs) :
    List.Forall₂ (fun arrived what => ∃ request served,
      what = .inl (ledger.submitReply request arrived served) ∨
        what = .inr (ledger.queryReply request arrived served)) states (said xs) := by
  induction h with
  | nil => exact .nil
  | submit arrived served request _ ih => exact .cons ⟨request, served, .inl rfl⟩ ih
  | query arrived served request _ ih => exact .cons ⟨request, served, .inr rfl⟩ ih
  | @other states x rest hquiet _ ih =>
    have hsaid : said (x :: rest) = said rest := List.filterMap_cons_none hquiet
    rwa [hsaid]

/-- A reply that was the last thing said is the reply to a query that arrived in the last state. -/
theorem exists_last (h : ledger.Serves states xs) {reply : Reply QueryResponse}
    (hlast : (said xs).getLast? = some (.inr reply)) :
    ∃ s request served, states.getLast? = some s ∧ reply = ledger.queryReply request s served := by
  have hreversed := List.forall₂_reverse_iff.mpr h.forall₂_said
  rw [List.getLast?_eq_head?_reverse] at hlast ⊢
  generalize states.reverse = before, (said xs).reverse = heard at hreversed hlast ⊢
  cases hreversed with
  | nil => cases hlast
  | @cons s what _ _ hfirst _ =>
    obtain rfl : what = .inr reply := Option.some.inj hlast
    obtain ⟨request, served, hsubmit | hquery⟩ := hfirst
    · cases hsubmit
    · exact ⟨s, request, served, rfl, Sum.inr.inj hquery⟩

end Ledger.Serves

/-- A program that runs alone is answered by the ledger. -/
theorem Ledger.serves_exchanged {σ α : Type} (ledger : Ledger σ) (p : Program α) (w : World σ) :
    ∃ states, ledger.Serves states (p.exchanged ledger w) := by
  induction p generalizing w with
  | done a => exact ⟨[], .nil⟩
  | act effect next ih =>
    obtain ⟨states, hserves⟩ := ih (w.answer ledger.alone effect).answer
      ((w.answer ledger.alone effect).world.later (w.answer ledger.alone effect).took)
    cases effect with
    | submit request => exact ⟨w.ledger :: states, .submit w.ledger _ request hserves⟩
    | query request => exact ⟨w.ledger :: states, .query w.ledger _ request hserves⟩
    | now => exact ⟨states, .other rfl hserves⟩
    | resolve form body => exact ⟨states, .other rfl hserves⟩
    | sleep delay => exact ⟨states, .other rfl hserves⟩
    | emit event => exact ⟨states, .other rfl hserves⟩

/-! ## Answers of a simulated ledger -/

namespace SimulatedLedger

variable {p : SimulationProfile} {request : Request}

theorem lastDisagrees_concat (es : List Endorsement) (e : Endorsement) :
    lastDisagrees (es ++ [e]) = es ++ [{ e with status := statusDisagrees }] := by
  induction es with
  | nil => rfl
  | cons first rest ih =>
    rw [List.cons_append, List.cons_append, ← ih]
    cases rest <;> rfl

/-- The last endorser's status is all that changes where it disagrees. -/
theorem mem_lastDisagrees {es : List Endorsement} {e : Endorsement} (h : e ∈ lastDisagrees es) :
    ∃ e' ∈ es, e = e' ∨ e = { e' with status := statusDisagrees } := by
  rcases List.eq_nil_or_concat' es with rfl | ⟨before, last, rfl⟩
  · cases h
  · rw [lastDisagrees_concat] at h
    rcases List.mem_append.mp h with hbefore | hlast
    · exact ⟨e, List.mem_append_left _ hbefore, .inl rfl⟩
    · exact ⟨last, List.mem_append_right _ (List.mem_singleton_self last),
        .inr (List.mem_singleton.mp hlast)⟩

theorem endorsers_lastDisagrees (es : List Endorsement) :
    (lastDisagrees es).map Endorsement.endorser = es.map Endorsement.endorser := by
  rcases List.eq_nil_or_concat' es with rfl | ⟨before, last, rfl⟩
  · rfl
  · rw [lastDisagrees_concat, List.map_append, List.map_append]
    rfl

/-- Whatever the code of an answer, its endorsements are signed by the endorsers of the ledger for
its payload. -/
theorem verified_response (p : SimulationProfile) (request : Request) (code : ValidationCode) :
    (response p request code).endorsements.map Endorsement.endorser = p.endorsers ∧
    ∀ e ∈ (response p request code).endorsements, verify e = true ∧
      e.payload = (response p request code).payload := by
  have hendorsed : ∀ e ∈ p.endorsers.map (endorse (payload request)), verify e = true ∧
      e.payload = payload request := by
    intro e he
    obtain ⟨endorser, -, rfl⟩ := List.mem_map.mp he
    exact ⟨verify_endorse _ endorser, rfl⟩
  have hnames :
      (p.endorsers.map (endorse (payload request))).map Endorsement.endorser = p.endorsers := by
    rw [List.map_map]
    exact List.map_id p.endorsers
  unfold response
  cases hvalid : code.isValid with
  | true => exact ⟨hnames, hendorsed⟩
  | false =>
    refine ⟨(endorsers_lastDisagrees _).trans hnames, fun e he => ?_⟩
    -- The signature does not cover the status.
    obtain ⟨e', he', rfl | rfl⟩ := mem_lastDisagrees he
    · exact hendorsed e he'
    · exact hendorsed e' he'

/-- The standard handlers accept an answer exactly where its code is valid and somebody endorses. -/
theorem accepted_response_iff (p : SimulationProfile) (request : Request) (code : ValidationCode) :
    (HandlerChain.standard verify).judge (response p request code) = .accepted ↔
      code = .valid ∧ p.endorsers ≠ [] := by
  have hverified := (verified_response p request code).2
  rw [HandlerChain.accepted_standard_iff]
  constructor
  · intro h
    have hvalid : code.isValid = true := by
      -- Otherwise the last endorsement is not in good order.
      refine Bool.of_not_eq_false fun hinvalid => ?_
      obtain ⟨before, last, hes⟩ :
          ∃ before last, p.endorsers.map (endorse (payload request)) = before ++ [last] := by
        rcases List.eq_nil_or_concat'
          (p.endorsers.map (endorse (payload request))) with hnil | hconcat
        · exact absurd (by simp only [response, hinvalid, Bool.false_eq_true, if_false, hnil,
            lastDisagrees]) h.nonempty
        · exact hconcat
      have hlast : statusDisagrees = Handler.statusOk :=
        h.status { last with status := statusDisagrees } (by
        simp only [response, hinvalid, Bool.false_eq_true, if_false, hes, lastDisagrees_concat,
          List.mem_append, List.mem_singleton, or_true])
      exact absurd hlast (by decide)
    refine ⟨of_decide_eq_true hvalid, fun hnobody => h.nonempty ?_⟩
    simp only [response, hvalid, if_true, hnobody, List.map_nil]
  · rintro ⟨rfl, hendorsers⟩
    refine ⟨fun hnil => hendorsers (List.map_eq_nil_iff.mp hnil), fun e he => ?_,
      fun e he => (hverified e he).1, fun e he e' he' => ?_⟩
    · obtain ⟨endorser, -, rfl⟩ := List.mem_map.mp he
      rfl
    · rw [(hverified e he).2, (hverified e' he').2]

/-- The reply to a query is settled by the draw as it arrives, whenever it is served. -/
theorem queryReply_eq (s served : SimulatedLedger) :
    (ledger p).queryReply request s served = (query p request (s.draw p).2.1 served).reply := by
  rw [Ledger.queryReply, arrive_ledger]
  rfl

theorem queryReply_lost {s served : SimulatedLedger} (h : (s.draw p).2.1 = .lost) :
    (ledger p).queryReply request s served = .failed (timeout request) := by
  rw [queryReply_eq, h]
  rfl

theorem queryReply_committed {s served : SimulatedLedger} {code : ValidationCode}
    (h : (s.draw p).2.1 = .committed code) :
    (ledger p).queryReply request s served = .answered (response p request code) := by
  rw [queryReply_eq, h]
  rfl

/-- A draw that loses a query leads to a transport error, every other one to an answer whose
endorsements are genuine and for its payload. The standard handlers accept it exactly where the code
drawn is valid and there is an endorser, and otherwise reject it for its endorsements. So a query
with these handlers succeeds exactly where this holds of the draw for the last request that it
sends. -/
theorem accepted_of_draw (p : SimulationProfile) :
    (∀ request s served, (s.draw p).2.1 = .lost →
      (ledger p).queryReply request s served = .failed (timeout request) ∧
        (timeout request).toCallError.kind = .transport) ∧
    (∀ request s served code, (s.draw p).2.1 = .committed code →
      ∃ answer, (ledger p).queryReply request s served = .answered answer ∧
        answer.endorsements.map Endorsement.endorser = p.endorsers ∧
        (∀ e ∈ answer.endorsements, verify e = true ∧ e.payload = answer.payload) ∧
        ((HandlerChain.standard verify).judge answer = .accepted ↔
            code = .valid ∧ p.endorsers ≠ []) ∧
        (¬ (code = .valid ∧ p.endorsers ≠ []) →
          ∃ error, (HandlerChain.standard verify).judge answer = .rejected error ∧
            error.kind = .endorsement)) ∧
    ∀ binding : Binding, binding.mode = .query → binding.handlers = HandlerChain.standard verify →
      ∀ c : CallTask,
      (∀ xs states ending left, Path (c.invoke binding) xs (ending, left) →
        (ledger p).Serves states xs →
        ∃ s, states.getLast? = some s ∧
          ((∃ o, .completed o ∈ events xs ∧ o.error = none) ↔ (s.draw p).2.1 = .committed .valid ∧
              p.endorsers ≠ [])) ∧
      ∀ w, Path (c.invoke binding) ((c.invoke binding).exchanged (ledger p) w)
        ((c.invoke binding).run (ledger p) w).1 ∧
        ∃ states, (ledger p).Serves states ((c.invoke binding).exchanged (ledger p) w) := by
  refine ⟨fun request s served hlost => ⟨queryReply_lost hlost, rfl⟩,
    fun request s served code hcode => ?_,
    fun binding hmode hhandlers c => ⟨fun xs states ending left h hserves => ?_,
      fun w => ⟨path_exchanged (ledger p) (c.invoke binding) w,
        (ledger p).serves_exchanged (c.invoke binding) w⟩⟩⟩
  · obtain ⟨hnames, hverified⟩ := verified_response p request code
    have haccepted := accepted_response_iff p request code
    exact ⟨response p request code, queryReply_committed hcode, hnames, hverified, haccepted,
      fun hno => HandlerChain.rejected_standard (mt haccepted.mp hno)⟩
  · obtain ⟨reply, hlast, hsucceeds⟩ := CallTask.succeeds_iff hmode h
    obtain ⟨s, request, served, hs, hreply⟩ := hserves.exists_last hlast
    refine ⟨s, hs, hsucceeds.trans ?_⟩
    rw [hhandlers]
    cases hdraw : (s.draw p).2.1 with
    | lost => simp [hreply, queryReply_lost hdraw]
    | committed code => simp [hreply, queryReply_committed hdraw, accepted_response_iff]

/-! ### Four draws, and a ledger that fails no call -/

/-- A profile where every fate is as likely as the others, and one peer endorses twice. -/
def uneven : SimulationProfile where
  transientRate := .ofRatio false 1 4
  persistentRate := .ofRatio false 1 4
  transportRate := .ofRatio false 1 4
  endorsers := ["peer0", "peer1", "peer0"]

/-- A state whose next roll is an eighth more than some number of quarters. -/
def stepping (quarters : Nat) : SimulatedLedger where
  draws := { stream := fun _ => (2 * quarters + 1) * 2 ^ 50 }

def quiet : SimulationProfile where
  transientRate := .zero
  persistentRate := .zero
  transportRate := .zero

/-- No roll is less than zero. -/
theorem not_roll_lt_zero (random : Nat) : (roll random).lt .zero = false := by
  have hfinite (units : Nat) : Binary64.lt (.finite false units) .zero = false := by
    simp [Binary64.lt, Binary64.zero, Binary64.signedUnits]
  rw [roll, Binary64.ofRatio, Binary64.ofUnitRatio]
  split
  · exact hfinite _
  · rfl

theorem draw_quiet (s : SimulatedLedger) : (s.draw quiet).2.1 = .committed .valid := by
  have hsum : Binary64.zero.add .zero = .zero := by decide
  simp only [draw, Draws.next, fate, quiet, hsum, not_roll_lt_zero, Bool.false_eq_true, if_false]

/-- A query call that has the ledger verify its own signatures. -/
def asking : Binding where
  mode := .query
  handlers := HandlerChain.standard verify

def getKey : Request where
  task := CallTask.getCall.id
  function := "get"
  args := ["k"]
  targets := []

theorem accepted_of_draw_quiet :
    (ledger uneven).queryReply getKey (stepping 0) (stepping 0) =
      .failed (.noResponse "simulated timeout for get") ∧
    (∃ answer error, (ledger uneven).queryReply getKey (stepping 1) (stepping 0) =
      .answered answer ∧ answer.endorsements.length = 3 ∧
      (HandlerChain.standard verify).judge answer = .rejected error ∧ error.kind = .endorsement) ∧
    (∃ answer error, (ledger uneven).queryReply getKey (stepping 2) (stepping 0) =
      .answered answer ∧
      (HandlerChain.standard verify).judge answer = .rejected error ∧ error.kind = .endorsement) ∧
    (∃ answer, (ledger uneven).queryReply getKey (stepping 3) (stepping 0) = .answered answer ∧
        (HandlerChain.standard verify).judge answer = .accepted) ∧
    ∃ states s o,
      (ledger quiet).Serves states ((CallTask.getCall.invoke asking).exchanged (ledger quiet)
          { scope := {}, ledger := stepping 0 }) ∧
      states.getLast? = some s ∧
      .completed o ∈ events ((CallTask.getCall.invoke asking).exchanged (ledger quiet)
        { scope := {}, ledger := stepping 0 }) ∧ o.error = none := by
  obtain ⟨hlost, hcommitted, -⟩ := accepted_of_draw uneven
  have hconflict : ((stepping 1).draw uneven).2.1 = .committed .mvccReadConflict := by
    decide +kernel
  have hpolicy : ((stepping 2).draw uneven).2.1 = .committed .endorsementPolicyFailure := by
    decide +kernel
  have hvalid : ((stepping 3).draw uneven).2.1 = .committed .valid := by decide +kernel
  refine ⟨(hlost getKey (stepping 0) (stepping 0) (by decide +kernel)).1, ?_, ?_, ?_, ?_⟩
  · obtain ⟨answer, hreply, hnames, -, -, hrejected⟩ :=
      hcommitted getKey (stepping 1) (stepping 0) _ hconflict
    obtain ⟨error, hjudge, hkind⟩ := hrejected (by simp)
    have hlength : answer.endorsements.length = 3 := by
      rw [← List.length_map Endorsement.endorser, hnames]; rfl
    exact ⟨answer, error, hreply, hlength, hjudge, hkind⟩
  · obtain ⟨answer, hreply, -, -, -, hrejected⟩ :=
      hcommitted getKey (stepping 2) (stepping 0) _ hpolicy
    obtain ⟨error, hjudge, hkind⟩ := hrejected (by simp)
    exact ⟨answer, error, hreply, hjudge, hkind⟩
  · obtain ⟨answer, hreply, -, -, haccepted, -⟩ :=
      hcommitted getKey (stepping 3) (stepping 0) _ hvalid
    exact ⟨answer, hreply, haccepted.mpr ⟨rfl, by decide⟩⟩
  · obtain ⟨-, -, hquery⟩ := accepted_of_draw quiet
    obtain ⟨hsucceeds, halone⟩ := hquery asking rfl rfl CallTask.getCall
    obtain ⟨hpath, states, hserves⟩ := halone { scope := {}, ledger := stepping 0 }
    generalize ((CallTask.getCall.invoke asking).run (ledger quiet)
      { scope := {}, ledger := stepping 0 }).1 = ended at hpath
    obtain ⟨s, hlast, hiff⟩ := hsucceeds _ states ended.1 ended.2 hpath hserves
    obtain ⟨o, hcompleted, herror⟩ := hiff.mpr ⟨draw_quiet s, by decide⟩
    exact ⟨states, s, o, hserves, hlast, hcompleted, herror⟩

end SimulatedLedger

end LedgerBench
