import LedgerBench.Proofs.Call.Handler
import LedgerBench.Proofs.Task.Invocation
/-!
What a successful query vouches for.

The standard handlers compare endorsements with each other and have every signature verified; the
payload that a response carries beside its endorsements they do not look at, and it is this one that
a successful query reports. What is proved:
  1. `endorsed_of_completed`: a query that completes without an error was delivered an endorsed
     response, and reports that response's payload. All its endorsements are for that payload, or
     none is.
  2. `completed_unendorsed`: a query can complete without an error and report a payload that no peer
     endorsed.
-/

namespace LedgerBench

open Program

namespace CallTask

theorem judged_ok {handlers : HandlerChain} {response : QueryResponse} {settled : Settled}
    (h : judged handlers response = .ok settled) :
    handlers.judge response = .accepted ∧ settled.payload = some response.payload := by
  unfold judged at h
  cases hj : handlers.judge response with
  | accepted =>
    rw [hj] at h
    obtain rfl := Attempt.ok.inj h
    exact ⟨rfl, rfl⟩
  | rejected e =>
    rw [hj] at h
    cases h
  | panicked reason =>
    rw [hj] at h
    cases h

/-- A query that completes without an error was delivered an endorsed response by its last attempt
and reports the payload of that response; which is endorsed by every peer or by none. -/
theorem endorsed_of_completed {binding : Binding} {verify : SignatureVerifier}
    (hm : binding.mode = .query) (hh : binding.handlers = HandlerChain.standard verify)
    {c left : CallTask} {xs : List Exchange} {ending : Ending}
    (h : Path (c.invoke binding) xs (ending, left)) {o : Outcome} (ho : .completed o ∈ events xs)
    (he : o.error = none) :
    ∃ earlier request response later,
      xs = earlier ++ ⟨.query request, .answered response⟩ :: later ∧ tries later = [] ∧
      response.Endorsed verify ∧ o.payload = some response.payload ∧
      ((∀ e ∈ response.endorsements, o.payload = some e.payload) ∨
        ∀ e ∈ response.endorsements, o.payload ≠ some e.payload) := by
  rcases path_invoke h with ⟨i, rfl, -, rfl, -, -⟩ | ⟨_, -, hevents, -⟩
  · obtain rfl : o = i.outcome := by simpa [i.events_eq, Invocation.reports] using ho
    obtain ⟨settled, hr, hpayload⟩ := i.settled_of_error_none he
    have hquery :
        Path (query binding.policy binding.handlers (i.call.request binding i.args)) i.attempting
        i.retried := by
      have hatt := i.attempted
      unfold attempt at hatt
      rwa [hm] at hatt
    obtain ⟨earlier, response, hatt, hjudged⟩ := delivered_of_query hquery hr
    obtain ⟨haccepted, hsettled⟩ := judged_ok hjudged
    rw [hh, HandlerChain.accepted_standard_iff] at haccepted
    rw [hsettled] at hpayload
    refine ⟨⟨.now, i.begunAt⟩ :: ⟨.emit (.started i.call.id i.call.spec.function),
      ()⟩ :: (i.expansion ++ earlier),
      i.call.request binding i.args, response, reporting i.endedAt i.outcome, ?_, rfl,
        haccepted, hpayload, ?_⟩
    · rw [Invocation.exchanges, Invocation.making, hatt]
      simp only [List.cons_append, List.append_assoc, List.nil_append]
    · rw [hpayload]
      -- All endorsements have one payload, so the response's is that of all of them or of none.
      by_cases hfirst : ∃ e ∈ response.endorsements, response.payload = e.payload
      · obtain ⟨e, hmem, hsame⟩ := hfirst
        left
        intro e' hmem'
        rw [hsame, haccepted.agreed e hmem e' hmem']
      · right
        intro e hmem hsame
        exact hfirst ⟨e, hmem, Option.some.inj hsame⟩
  · -- An invocation that panics has reported its start only.
    rw [hevents] at ho
    simp at ho

/-! ### A payload that no peer endorsed -/

/-- What a query call with the standard handlers shares, where every signature is genuine. -/
def trusting : Binding where
  mode := .query
  handlers := HandlerChain.standard fun _ => true

/-- A response whose one endorsement is for another payload. -/
def divided : QueryResponse where
  payload := [0x61]
  endorsements := [{ endorser := "peer0", status := 200, payload := [0x62], signature := [0x73] }]

def getCall : CallTask where
  id := ⟨Ulid.ofNat 1⟩
  spec := { function := "get" }

/-- What the call reports on that response. -/
def dividedOutcome : Outcome where
  task := getCall.id
  function := "get"
  attempts := 1
  duration := Duration.zero
  error := none
  retried := []
  transactionId := none
  payload := some divided.payload

/-- The exchanges of the call, all at one time. -/
def dividedExchanges : List Exchange :=
  [⟨.now, Duration.zero⟩, ⟨.emit (.started getCall.id "get"), ()⟩,
    ⟨.query (getCall.request trusting []), .answered divided⟩] ++
      reporting Duration.zero dividedOutcome

theorem path_divided : ∃ left, Path (getCall.invoke trusting) dividedExchanges (.returned, left) :=
  ⟨_, .act (.act (.act (.act (.act (.done _)))))⟩

/-- A query completes without an error and reports a payload that none of the peers endorsed. -/
theorem completed_unendorsed :
    ∃ left, Path (getCall.invoke trusting) dividedExchanges (.returned, left) ∧
      .completed dividedOutcome ∈ events dividedExchanges ∧ dividedOutcome.error = none ∧
      ⟨.query (getCall.request trusting []), .answered divided⟩ ∈ dividedExchanges ∧
      ∃ e ∈ divided.endorsements, dividedOutcome.payload ≠ some e.payload := by
  obtain ⟨left, h⟩ := path_divided
  exact ⟨left, h, by decide, rfl, .tail _ (.tail _ (.head _)), _, .head _, by decide⟩

theorem endorsed_of_completed_divided :
    ∃ earlier request response later,
      dividedExchanges = earlier ++ ⟨.query request, .answered response⟩ :: later ∧
      tries later = [] ∧
      response.Endorsed (fun _ => true) ∧ dividedOutcome.payload = some response.payload ∧
      ((∀ e ∈ response.endorsements, dividedOutcome.payload = some e.payload) ∨
        ∀ e ∈ response.endorsements, dividedOutcome.payload ≠ some e.payload) := by
  obtain ⟨left, h⟩ := path_divided
  exact endorsed_of_completed rfl rfl h (by decide) rfl

end CallTask

end LedgerBench
