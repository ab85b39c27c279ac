import LedgerBench.Call.Handler
import Mathlib.Data.List.Perm.Basic
/-!
What a chain of handlers decides.

Handlers look at a response one after the other, and the library's two handlers look at its
endorsements one after the other. A payload is only ever compared with that of the first
endorsement, and a handler stops at the first endorsement that it objects to. What is proved:
  1. `Handler.endorsement_accepted_iff`, `Handler.signature_accepted_iff`: what a response needs to
     be accepted is said of all its endorsements, without their order, so a handler accepts it in
     any order of them (`Rule.accepted_of_perm`).
  2. `Rule.rejected_iff`: a rule refuses a response for the first endorsement that violates it, or
     for having none.
  3. `HandlerChain.accepted_iff`, `HandlerChain.decided_iff`: a chain accepts what all its handlers
     accept, and has the verdict of the first one that does not accept.
  4. `HandlerChain.accepted_standard_iff`: the standard handlers accept exactly the endorsed
     responses.
  5. `HandlerChain.decided_by_first`: all this together, of chains of rules.
-/

namespace LedgerBench

/-- The first item of a list that has a property. -/
def IsFirst {α : Type} (P : α → Prop) (l : List α) (a : α) : Prop :=
  P a ∧ ∃ before after, l = before ++ a :: after ∧ ∀ b ∈ before, ¬ P b

namespace IsFirst

variable {α β : Type} {P : α → Prop} {a x : α} {l : List α}

theorem not_nil : ¬ IsFirst P [] a := by
  rintro ⟨-, before, after, hsplit, -⟩
  simp at hsplit

/-- The first item is the one in front, or the first of the others where that one has not the
property. -/
theorem cons_iff : IsFirst P (x :: l) a ↔ P x ∧ a = x ∨ ¬ P x ∧ IsFirst P l a := by
  constructor
  · rintro ⟨ha, before, after, hsplit, hbefore⟩
    cases before with
    | nil =>
      obtain ⟨rfl, -⟩ := List.cons.inj hsplit
      exact .inl ⟨ha, rfl⟩
    | cons b before =>
      obtain ⟨rfl, rfl⟩ := List.cons.inj hsplit
      obtain ⟨hx, hbefore⟩ := List.forall_mem_cons.mp hbefore
      exact .inr ⟨hx, ha, before, after, rfl, hbefore⟩
  · rintro (⟨hx, rfl⟩ | ⟨hx, ha, before, after, rfl, hbefore⟩)
    · exact ⟨hx, [], l, rfl, nofun⟩
    · exact ⟨ha, x :: before, after, rfl, List.forall_mem_cons.mpr ⟨hx, hbefore⟩⟩

theorem map_iff {Q : β → Prop} {f : α → β} {b : β} :
    IsFirst Q (l.map f) b ↔ ∃ a, IsFirst (fun a => Q (f a)) l a ∧ f a = b := by
  induction l with
  | nil => simp [not_nil]
  | cons x l ih =>
    simp only [List.map_cons, cons_iff, ih]
    constructor
    · rintro (⟨hx, rfl⟩ | ⟨hx, a, ha, rfl⟩)
      · exact ⟨x, .inl ⟨hx, rfl⟩, rfl⟩
      · exact ⟨a, .inr ⟨hx, ha⟩, rfl⟩
    · rintro ⟨a, ⟨hx, rfl⟩ | ⟨hx, ha⟩, rfl⟩
      · exact .inl ⟨hx, rfl⟩
      · exact .inr ⟨hx, a, ha, rfl⟩

end IsFirst

/-- There are endorsements, and all are in good order, genuine, and for one payload. -/
structure QueryResponse.Endorsed (verify : SignatureVerifier)
    (response : QueryResponse) : Prop where
  nonempty : response.endorsements ≠ []
  status : ∀ e ∈ response.endorsements, e.status = Handler.statusOk
  genuine : ∀ e ∈ response.endorsements, verify e = true
  agreed : ∀ e ∈ response.endorsements, ∀ e' ∈ response.endorsements, e.payload = e'.payload

/-! ## What is accepted -/

namespace Handler

theorem judgeEndorsements_accepted_iff (first : Endorsement) (es : List Endorsement) :
    judgeEndorsements first es = .accepted ↔ ∀ e ∈ es, e.status = statusOk ∧
      e.payload = first.payload := by
  induction es with
  | nil => simp [judgeEndorsements]
  | cons e rest ih =>
    rw [judgeEndorsements, List.forall_mem_cons]
    by_cases hstatus : e.status = statusOk
    · by_cases hpayload : e.payload = first.payload
      · simp only [hstatus, hpayload, ne_eq, not_true_eq_false, if_false, ih, true_and]
      · simp [hstatus, hpayload, refuse]
    · simp [hstatus, refuse]

theorem endorsement_accepted_iff (response : QueryResponse) :
    endorsement.judge response = .accepted ↔
      response.endorsements ≠ [] ∧ (∀ e ∈ response.endorsements, e.status = statusOk) ∧
        ∀ e ∈ response.endorsements, ∀ e' ∈ response.endorsements, e.payload = e'.payload := by
  unfold endorsement
  cases hes : response.endorsements with
  | nil => simp [hes, refuse]
  | cons first rest =>
    simp only [hes, judgeEndorsements_accepted_iff]
    constructor
    · intro h
      refine ⟨List.cons_ne_nil first rest, fun e he => (h e he).1, ?_⟩
      intro e he e' he'
      rw [(h e he).2, (h e' he').2]
    · rintro ⟨-, hstatus, hagreed⟩ e he
      exact ⟨hstatus e he, hagreed e he first List.mem_cons_self⟩

theorem signature_accepted_iff (verify : SignatureVerifier) (response : QueryResponse) :
    (signature verify).judge response = .accepted ↔ ∀ e ∈ response.endorsements,
      verify e = true := by
  unfold signature
  cases hfind : response.endorsements.find? fun e => !verify e with
  | none =>
    simp only [hfind, true_iff]
    have hall : ∀ e ∈ response.endorsements, verify e = true := by
      intro e he
      simpa using List.find?_eq_none.mp hfind e he
    exact hall
  | some bad =>
    have hbad := List.find?_some hfind
    have hmem := List.mem_of_find?_eq_some hfind
    simp only [hfind, refuse, reduceCtorEq, false_iff]
    intro hall
    simp [hall bad hmem] at hbad

end Handler

/-! ## What is refused, and for which endorsement -/

/-- The library's own handlers. -/
inductive Rule where
  | endorsement
  | signature (verify : SignatureVerifier)

namespace Rule

def handler : Rule → Handler
  | endorsement => Handler.endorsement
  | signature verify => Handler.signature verify

/-- An endorsement violates a rule, and what is said of it: it is not in good order; it is, but has
not the payload of the first one; its signature is not genuine. -/
inductive Violated (first : Endorsement) : Rule → Endorsement → String → Prop where
  | status {e : Endorsement} (h : e.status ≠ Handler.statusOk) :
      Violated first endorsement e ("endorser " ++ e.endorser ++ " answered with status " ++
        Text.intText e.status)
  | payload {e : Endorsement} (hstatus : e.status = Handler.statusOk)
    (h : e.payload ≠ first.payload) :
      Violated first endorsement e ("payload from endorser " ++ e.endorser ++
        " differs from endorser " ++ first.endorser)
  | signature {verify : SignatureVerifier} {e : Endorsement} (h : verify e = false) :
      Violated first (signature verify) e ("invalid signature from endorser " ++ e.endorser)

/-- Why a rule refuses a response: there is no endorsement that could satisfy it, or there is a
first one that violates it. -/
inductive Refuses (response : QueryResponse) : Rule → CallError → Prop where
  | unendorsed (h : response.endorsements = []) :
      Refuses response endorsement
        { kind := .endorsement, message := "response carries no endorsements" }
  | violated {rule : Rule} {first e : Endorsement} {message : String}
    (hfirst : response.endorsements.head? = some first)
      (he : IsFirst (fun e => ∃ said, Violated first rule e said) response.endorsements e)
        (h : Violated first rule e message) :
      Refuses response rule { kind := .endorsement, message }

variable {first e : Endorsement} {verify : SignatureVerifier}

theorem violated_endorsement_iff :
    (∃ said, Violated first endorsement e said) ↔
      ¬ (e.status = Handler.statusOk ∧ e.payload = first.payload) := by
  constructor
  · rintro ⟨said, h⟩ ⟨hstatus, hpayload⟩
    cases h with
    | status hne => exact hne hstatus
    | payload _ hne => exact hne hpayload
  · intro h
    by_cases hstatus : e.status = Handler.statusOk
    · exact ⟨_, .payload hstatus fun hpayload => h ⟨hstatus, hpayload⟩⟩
    · exact ⟨_, .status hstatus⟩

theorem violated_signature_iff :
    (∃ said, Violated first (signature verify) e said) ↔ verify e = false := by
  constructor
  · rintro ⟨said, h⟩
    cases h with
    | signature h => exact h
  · intro h
    exact ⟨_, .signature h⟩

/-- The endorsement in front is refused where it violates the rule, and no other one is looked
at. -/
theorem judgeEndorsements_of_violated {message : String} (h : Violated first endorsement e message)
    (rest : List Endorsement) :
    Handler.judgeEndorsements first (e :: rest) = .rejected { kind := .endorsement, message } := by
  rw [Handler.judgeEndorsements]
  cases h with
  | status hstatus => rw [if_pos hstatus, Handler.refuse]
  | payload hstatus hpayload => rw [if_neg (not_not_intro hstatus), if_pos hpayload, Handler.refuse]

theorem judgeEndorsements_rejected_iff (first : Endorsement) (es : List Endorsement)
    (error : CallError) :
    Handler.judgeEndorsements first es = .rejected error ↔
      ∃ e message, IsFirst (fun e => ∃ said, Violated first endorsement e said) es e ∧
        Violated first endorsement e message ∧
        error = { kind := .endorsement, message } := by
  induction es with
  | nil => simp [Handler.judgeEndorsements, IsFirst.not_nil]
  | cons e rest ih =>
    simp only [IsFirst.cons_iff]
    by_cases hviolated : ∃ said, Violated first endorsement e said
    · obtain ⟨message, h⟩ := hviolated
      constructor
      · intro hjudge
        rw [judgeEndorsements_of_violated h] at hjudge
        exact ⟨e, message, .inl ⟨⟨message, h⟩, rfl⟩, h, (Verdict.rejected.inj hjudge).symm⟩
      · rintro ⟨bad, said, ⟨-, rfl⟩ | ⟨hno, -⟩, hbad, rfl⟩
        · exact judgeEndorsements_of_violated hbad rest
        · exact absurd ⟨message, h⟩ hno
    · obtain ⟨hstatus, hpayload⟩ := not_not.mp (mt violated_endorsement_iff.mpr hviolated)
      rw [Handler.judgeEndorsements, if_neg (not_not_intro hstatus),
        if_neg (not_not_intro hpayload), ih]
      simp only [hviolated, false_and, false_or, not_false_eq_true, true_and]

theorem signature_rejected_iff (first : Endorsement) (verify : SignatureVerifier)
    (response : QueryResponse) (error : CallError) :
    (Handler.signature verify).judge response = .rejected error ↔
      ∃ e message, IsFirst (fun e => ∃ said, Violated first (signature verify) e said)
        response.endorsements e ∧
        Violated first (signature verify) e message ∧
          error = { kind := .endorsement, message } := by
  simp only [violated_signature_iff]
  unfold Handler.signature
  cases hfind : response.endorsements.find? fun e => !verify e with
  | none =>
    simp only [hfind, reduceCtorEq, false_iff]
    rintro ⟨e, -, ⟨hfalse, before, after, hsplit, -⟩, -⟩
    have hmem : e ∈ response.endorsements := by simp [hsplit]
    have hno := List.find?_eq_none.mp hfind e hmem
    simp [hfalse] at hno
  | some bad =>
    obtain ⟨hbad, before, after, hsplit, hbefore⟩ := List.find?_eq_some_iff_append.mp hfind
    simp only [hfind, Handler.refuse, Verdict.rejected.injEq]
    constructor
    · rintro rfl
      have hfalse : verify bad = false := by simpa using hbad
      exact ⟨bad, _, ⟨hfalse, before, after, hsplit, fun e he => by simpa using hbefore e he⟩,
        .signature hfalse, rfl⟩
    · rintro ⟨e, message, ⟨hfalse, before', after', hsplit', hbefore'⟩, h, rfl⟩
      have hfound : response.endorsements.find? (fun e => !verify e) = some e :=
        List.find?_eq_some_iff_append.mpr ⟨by simp [hfalse], before', after', hsplit',
          fun e he => by simpa using hbefore' e he⟩
      obtain rfl := Option.some.inj (hfind.symm.trans hfound)
      cases h with
      | signature => rfl

/-- A rule refuses a response for the first endorsement that violates it, or for having none. -/
theorem rejected_iff (rule : Rule) (response : QueryResponse) (error : CallError) :
    rule.handler.judge response = .rejected error ↔ Refuses response rule error := by
  cases hes : response.endorsements with
  | nil =>
    cases rule with
    | endorsement =>
      simp only [handler, Handler.endorsement, hes, Handler.refuse, Verdict.rejected.injEq]
      constructor
      · rintro rfl
        exact .unendorsed hes
      · intro h
        cases h with
        | unendorsed => rfl
        | violated hfirst => simp [hes] at hfirst
    | signature verify =>
      simp only [handler, Handler.signature, hes, List.find?_nil, reduceCtorEq, false_iff]
      intro h
      cases h with
      | violated hfirst => simp [hes] at hfirst
  | cons first others =>
    have hhead : response.endorsements.head? = some first := by rw [hes, List.head?_cons]
    -- Each rule is looked up in the list as a whole, from the endorsement in front on.
    have hjudge : rule.handler.judge response = .rejected error ↔
        ∃ e message, IsFirst (fun e => ∃ said, Violated first rule e said) response.endorsements e ∧
          Violated first rule e message ∧
          error = { kind := .endorsement, message } := by
      cases rule with
      | endorsement =>
        rw [← judgeEndorsements_rejected_iff, hes]
        simp only [handler, Handler.endorsement, hes]
      | signature verify => exact signature_rejected_iff first verify response error
    rw [hjudge]
    constructor
    · rintro ⟨e, message, he, h, rfl⟩
      exact .violated hhead he h
    · intro h
      cases h with
      | unendorsed hnone => cases hes.symm.trans hnone
      | violated hfirst he h =>
        obtain rfl := Option.some.inj (hhead.symm.trans hfirst)
        exact ⟨_, _, he, h, rfl⟩

theorem Refuses.kind_eq {response : QueryResponse} {rule : Rule} {error : CallError}
    (h : Refuses response rule error) :
    error.kind = .endorsement := by
  cases h <;> rfl

theorem judgeEndorsements_ne_panicked (first : Endorsement) (es : List Endorsement)
    (reason : String) :
    Handler.judgeEndorsements first es ≠ .panicked reason := by
  induction es with
  | nil => exact nofun
  | cons e rest ih =>
    rw [Handler.judgeEndorsements]
    split
    · exact nofun
    · split
      · exact nofun
      · exact ih

theorem ne_panicked (rule : Rule) (response : QueryResponse) (reason : String) :
    rule.handler.judge response ≠ .panicked reason := by
  cases rule with
  | endorsement =>
    simp only [handler, Handler.endorsement]
    split
    · exact nofun
    · exact judgeEndorsements_ne_panicked _ _ reason
  | signature verify =>
    simp only [handler, Handler.signature]
    split <;> exact nofun

/-- A rule accepts a response whatever the order of its endorsements. -/
theorem accepted_of_perm (rule : Rule) {response other : QueryResponse}
    (h : other.endorsements.Perm response.endorsements) :
    rule.handler.judge other = .accepted ↔ rule.handler.judge response = .accepted := by
  cases rule with
  | endorsement =>
    have hnil : other.endorsements = [] ↔ response.endorsements = [] := by
      rw [← List.length_eq_zero_iff, h.length_eq, List.length_eq_zero_iff]
    simp only [handler, Handler.endorsement_accepted_iff, ne_eq, hnil, h.mem_iff]
  | signature verify => simp only [handler, Handler.signature_accepted_iff, h.mem_iff]

end Rule

/-! ## Chains -/

namespace HandlerChain

theorem judge_cons_accepted_iff (handler : Handler) (rest : HandlerChain)
    (response : QueryResponse) :
    judge (handler :: rest) response = .accepted ↔
      handler.judge response = .accepted ∧ judge rest response = .accepted := by
  rw [judge]
  cases handler.judge response <;> simp

theorem accepted_iff (chain : HandlerChain) (response : QueryResponse) :
    chain.judge response = .accepted ↔ ∀ handler ∈ chain, handler.judge response = .accepted := by
  induction chain with
  | nil => simp [judge]
  | cons handler rest ih => rw [judge_cons_accepted_iff, ih, List.forall_mem_cons]

/-- A chain that does not accept has the verdict of its first handler that does not. -/
theorem decided_iff (chain : HandlerChain) (response : QueryResponse) {verdict : Verdict}
    (hverdict : verdict ≠ .accepted) :
    chain.judge response = verdict ↔
      ∃ handler, IsFirst (fun h : Handler => h.judge response ≠ .accepted) chain handler ∧
        handler.judge response = verdict := by
  induction chain with
  | nil => simp [judge, hverdict.symm, IsFirst.not_nil]
  | cons handler rest ih =>
    simp only [IsFirst.cons_iff]
    rw [judge]
    cases hjudge : handler.judge response with
    | accepted =>
      simp only [ih, ne_eq, not_true_eq_false, not_false_eq_true, true_and, false_and, false_or]
    | rejected e => simp [hjudge]
    | panicked reason => simp [hjudge]

/-- The standard handlers accept exactly the endorsed responses. -/
theorem accepted_standard_iff (verify : SignatureVerifier) (response : QueryResponse) :
    (standard verify).judge response = .accepted ↔ response.Endorsed verify := by
  rw [standard, judge_cons_accepted_iff, judge_cons_accepted_iff, Handler.endorsement_accepted_iff,
    Handler.signature_accepted_iff]
  constructor
  · rintro ⟨⟨hne, hstatus, hagreed⟩, hgenuine, -⟩
    exact ⟨hne, hstatus, hgenuine, hagreed⟩
  · intro h
    exact ⟨⟨h.nonempty, h.status, h.agreed⟩, h.genuine, rfl⟩

/-- The handlers of some rules, in their order. -/
def ofRules (rules : List Rule) : HandlerChain := rules.map Rule.handler

theorem accepted_ofRules_iff (rules : List Rule) (response : QueryResponse) :
    (ofRules rules).judge response = .accepted ↔ ∀ rule ∈ rules,
      rule.handler.judge response = .accepted := by
  rw [accepted_iff, ofRules, List.forall_mem_map]

theorem rejected_ofRules_iff (rules : List Rule) (response : QueryResponse) (error : CallError) :
    (ofRules rules).judge response = .rejected error ↔
      ∃ rule, IsFirst (fun rule => rule.handler.judge response ≠ .accepted) rules rule ∧
        rule.Refuses response error := by
  rw [decided_iff _ _ (by exact nofun), ofRules]
  simp only [IsFirst.map_iff]
  constructor
  · rintro ⟨handler, ⟨rule, hfirst, rfl⟩, hjudge⟩
    exact ⟨rule, hfirst, (rule.rejected_iff response error).mp hjudge⟩
  · rintro ⟨rule, hfirst, hrefuses⟩
    exact ⟨rule.handler, ⟨rule, hfirst, rfl⟩, (rule.rejected_iff response error).mpr hrefuses⟩

theorem ofRules_ne_panicked (rules : List Rule) (response : QueryResponse) (reason : String) :
    (ofRules rules).judge response ≠ .panicked reason := by
  rw [ne_eq, decided_iff _ _ (by exact nofun), ofRules]
  simp only [IsFirst.map_iff]
  rintro ⟨handler, ⟨rule, -, rfl⟩, hjudge⟩
  exact rule.ne_panicked response reason hjudge

/-- What the standard handlers do not accept they reject, with an error that says that the
endorsements are at fault. -/
theorem rejected_standard {verify : SignatureVerifier} {response : QueryResponse}
    (h : (standard verify).judge response ≠ .accepted) :
    ∃ error, (standard verify).judge response = .rejected error ∧ error.kind = .endorsement := by
  have hrules : standard verify = ofRules [.endorsement, .signature verify] := rfl
  rw [hrules] at h ⊢
  cases hjudge : (ofRules [.endorsement, .signature verify]).judge response with
  | accepted => exact absurd hjudge h
  | rejected error =>
    obtain ⟨rule, -, hrefuses⟩ := (rejected_ofRules_iff _ response error).mp hjudge
    exact ⟨error, rfl, hrefuses.kind_eq⟩
  | panicked reason => exact absurd hjudge (ofRules_ne_panicked _ response reason)

/-- A chain of rules accepts a response if all of them do; otherwise the first rule that does not
accept decides, and the first endorsement that violates it is named. It never panics, the standard
chain accepts exactly the endorsed responses, and the order of the endorsements makes no difference
to what is accepted. -/
theorem decided_by_first (rules : List Rule) (response : QueryResponse) :
    ((ofRules rules).judge response = .accepted ↔ ∀ rule ∈ rules,
        rule.handler.judge response = .accepted) ∧
    (∀ error, (ofRules rules).judge response = .rejected error ↔
      ∃ rule, IsFirst (fun rule => rule.handler.judge response ≠ .accepted) rules rule ∧
        rule.Refuses response error) ∧
    (∀ error, (ofRules rules).judge response = .rejected error → error.kind = .endorsement) ∧
    (∀ reason, (ofRules rules).judge response ≠ .panicked reason) ∧
    (∀ verify, standard verify = ofRules [.endorsement, .signature verify] ∧
      ((standard verify).judge response = .accepted ↔ response.Endorsed verify)) ∧
    ∀ endorsements, endorsements.Perm response.endorsements →
      ((ofRules rules).judge { response with endorsements } = .accepted ↔
          (ofRules rules).judge response = .accepted) := by
  refine ⟨accepted_ofRules_iff rules response, rejected_ofRules_iff rules response, ?_,
    ofRules_ne_panicked rules response,
    fun verify => ⟨rfl, accepted_standard_iff verify response⟩, ?_⟩
  · intro error hjudge
    obtain ⟨rule, -, hrefuses⟩ := (rejected_ofRules_iff rules response error).mp hjudge
    exact hrefuses.kind_eq
  · intro endorsements hperm
    rw [accepted_ofRules_iff, accepted_ofRules_iff]
    exact forall₂_congr fun rule _ => rule.accepted_of_perm hperm

/-- Of three endorsements the second one decides: it is not in good order, and its payload is
another one too, but the status is looked at first. -/
example :
    let endorse :=
      fun endorser status payload => ({ endorser, status, payload, signature := [] } : Endorsement)
    (standard fun _ => true).judge ⟨[1], [endorse "peer0" 200 [1], endorse "peer1" 500 [2],
      endorse "peer2" 200 [2]]⟩ =
      .rejected { kind := .endorsement, message := "endorser peer1 answered with status 500" } := by
  decide +kernel

end HandlerChain

end LedgerBench
