import MemSandbox.Network.Accounting

/-! # Runs of the gateway

    What holds of every run of `send`: each call of the transport is admitted,
    and the accounts are right.  Neither is empty, since a request to a global
    address that the policy allows is sent (`exists_sent`). -/

open Python GatewayEvent

namespace Gateway

section Library

/-! ## Section 1: Undisturbed parts of the gateway -/

variable {context : NetworkOperationContext} {s s' : GatewayState} {α : Type}

theorem runs_check {x : Except PyError α} {a : α} (h : x = .ok a) :
    Coroutine.Runs (check x) s (.ok a) s := by
  subst h
  exact .ret

/-- A clock that stands still. -/
theorem runs_time : Coroutine.Runs time s (.ok s.now) s := .step ⟨s.now, le_refl _, rfl, rfl⟩

theorem runs_requireTime (h : s.now < context.deadlineMonotonic) :
    Coroutine.Runs (requireTime context) s (.ok ()) s :=
  .bind runs_time (runs_check (by rw [require, if_pos h]))

theorem runs_requireActive (hcancellable : context.cancellable = false)
    (h : s.now < context.deadlineMonotonic) :
    Coroutine.Runs (requireActive context) s (.ok ()) s := by
  apply Coroutine.Runs.bind (a := false)
  · unfold cancellationIsActive
    rw [hcancellable]
    exact .ret
  · exact .bind (runs_check rfl) (runs_requireTime h)

/-- A collaborator that returns in time. -/
theorem runs_awaitCollaborator {ended : Reply α → GatewayEvent} {a : α}
    (hcancellable : context.cancellable = false) (h : s.now < context.deadlineMonotonic) :
    Coroutine.Runs (awaitCollaborator (.ok []) ended context) s (.ok a)
      (s.record [ended (.returned a)]) := by
  have hactive := runs_requireActive hcancellable h
  apply Coroutine.Runs.bind hactive
  apply Coroutine.Runs.bind (runs_requireTime h)
  apply Coroutine.Runs.bind (runs_check rfl)
  apply Coroutine.Runs.bind (.step (.inl ⟨rfl, rfl⟩))
  apply Coroutine.Runs.bind (.await (.inr (.inr ⟨.returned a, rfl, rfl⟩)))
  have hrecord : (s.record []).record [ended (.returned a)] = s.record [ended (.returned a)] := by
    simp [GatewayState.record]
  rw [hrecord]
  have h' : (s.record [ended (.returned a)]).now < context.deadlineMonotonic := h
  apply Coroutine.Runs.bind (runs_requireTime h')
  apply Coroutine.Runs.bind .ret
  exact .bind (runs_requireActive hcancellable h') .ret

theorem runs_collaborate {stable : List ErrorClass} {x : Gateway α} {a : α}
    (h : Coroutine.Runs x s (.ok a) s') :
    Coroutine.Runs (collaborate stable context x) s (.ok (.returned a)) s' :=
  .tryRet (.bind h .ret)

/-- A gateway that is cancelled while it waits for a collaborator. -/
theorem runs_awaitCollaborator_cancelled {begun : List GatewayEvent} {ended : Reply α → GatewayEvent}
    (hcancellable : context.cancellable = false) (h : s.now < context.deadlineMonotonic) :
    Coroutine.Runs (awaitCollaborator (.ok begun) ended context) s (.error .cancelledError)
      (s.record (begun ++ [GatewayEvent.failed .cancelledError])) := by
  apply Coroutine.Runs.bind (runs_requireActive hcancellable h)
  apply Coroutine.Runs.bind (runs_requireTime h)
  apply Coroutine.Runs.bind (runs_check rfl)
  apply Coroutine.Runs.bind (.step (.inl ⟨rfl, rfl⟩))
  have hrecord : s.record (begun ++ [GatewayEvent.failed .cancelledError]) =
      (s.record begun).record [.failed .cancelledError] := by
    simp [GatewayState.record]
  rw [hrecord]
  exact .bindRaise (.await (.inl ⟨rfl, rfl⟩))

variable [NetworkLibrary] {request : OutboundHttpRequest} {url : NormalizedHttpUrl}

theorem runs_requirePolicy {method : HttpMethod} {redirectDepth : Nat}
    {addresses : List ResolvedHttpAddress} {canonicalHostname : Option Text}
    {phase : NetworkPolicyPhase} {facts : NetworkPolicyRequest}
    (hcancellable : context.cancellable = false) (h : s.now < context.deadlineMonotonic)
    (hfacts : policyFacts url method redirectDepth addresses canonicalHostname phase context =
      .ok facts) :
    Coroutine.Runs (requirePolicy url method redirectDepth addresses canonicalHostname phase context) s
      (.ok ()) (s.record [.evaluated facts allowed]) := by
  apply Coroutine.Runs.bind (runs_check hfacts)
  apply Coroutine.Runs.bind
    (runs_collaborate (runs_awaitCollaborator (a := some ⟨some .allow, some .allowed⟩) hcancellable h))
  exact .bind (runs_check rfl) (runs_requireActive hcancellable h)

variable {address : ResolvedHttpAddress} {next : HttpTransportRequest}

/-- The admission of an address that the policy allows. -/
theorem runs_requireAdmission {pre post : NetworkPolicyRequest} {resolution : NetworkResolution}
    (hcancellable : context.cancellable = false) (h : s.now < context.deadlineMonotonic)
    (hscheme : url.scheme ∈ context.grant.schemes) (hliteral : url.ipLiteral = some address)
    (hresolution : NetworkResolution.new url.hostname [address] none = .ok resolution)
    (hglobal : address.classification = .global)
    (hpre : policyFacts url request.method 0 [] none .preResolution context = .ok pre)
    (hpost : policyFacts url request.method 0 [address] none .postResolution context = .ok post) :
    Coroutine.Runs (requireAdmission request context { current := url }) s (.ok address)
      (s.record [.evaluated pre allowed, .evaluated post allowed]) := by
  obtain ⟨haddresses, hname⟩ := NetworkResolution.new_eq_ok hresolution
  have haddresses' : resolution.addresses = [address] := haddresses
  have hname' : resolution.canonicalHostname = none := (Except.ok.inj hname).symm
  have h' : (s.record [.evaluated pre allowed]).now < context.deadlineMonotonic := h
  have h'' : ((s.record [.evaluated pre allowed]).record [.evaluated post allowed]).now <
      context.deadlineMonotonic := h
  have hrecord : s.record [.evaluated pre allowed, .evaluated post allowed] =
      (s.record [.evaluated pre allowed]).record [.evaluated post allowed] := by
    simp [GatewayState.record]
  rw [hrecord]
  apply Coroutine.Runs.bind (runs_requireActive hcancellable h)
  apply Coroutine.Runs.bind (runs_check (by rw [require, if_pos request.limits.requests_positive]))
  apply Coroutine.Runs.bind (runs_check (by rw [require, if_pos hscheme]))
  apply Coroutine.Runs.bind (runs_requirePolicy hcancellable h hpre)
  apply Coroutine.Runs.bind (runs_requireActive hcancellable h')
  apply Coroutine.Runs.bind (a := resolution)
  · unfold resolve
    rw [hliteral]
    exact runs_check hresolution
  apply Coroutine.Runs.bind (runs_requireActive hcancellable h')
  rw [haddresses', hname']
  apply Coroutine.Runs.bind (runs_check (by
    rw [require, if_pos]
    simp [hglobal]))
  apply Coroutine.Runs.bind (runs_requirePolicy hcancellable h' hpost)
  exact .bind (runs_requireActive hcancellable h'') .ret

/-! ## Section 2: The request -/

variable [ZlibLibrary]

/-- A supported request to a global address that the policy allows may be sent
    in some run; here the gateway is cancelled while the transport works. -/
theorem exists_sent {pre post : NetworkPolicyRequest} {resolution : NetworkResolution}
    (hcancellable : context.cancellable = false)
    (hrequest : context.grant.requireRequest request = .ok ())
    (hsupported : requireSupportedRequest request = .ok ())
    (hurl : normalizeHttpUrl request.url = .ok url)
    (hscheme : url.scheme ∈ context.grant.schemes) (hliteral : url.ipLiteral = some address)
    (hresolution : NetworkResolution.new url.hostname [address] none = .ok resolution)
    (hglobal : address.classification = .global)
    (hpre : policyFacts url request.method 0 [] none .preResolution context = .ok pre)
    (hpost : policyFacts url request.method 0 [address] none .postResolution context = .ok post)
    (hnext : nextAttempt request { current := url } address = .ok next)
    (hcopy : copyTransportRequest next = .ok next) :
    ∃ c, (runs request context).Reachable c ∧ c.shared.history =
      [.evaluated pre allowed, .evaluated post allowed, .sent next, .failed .cancelledError] := by
  have hdeadline : 0 < min context.deadlineMonotonic (0 + request.limits.timeoutSeconds) := by
    rw [zero_add]
    exact lt_min context.deadline_positive request.limits.timeout_positive
  have hadmitted : Coroutine.Runs (requireAdmission request (context.withDeadline _ hdeadline)
      { current := url }) ⟨0, []⟩ (.ok address)
      (GatewayState.record ⟨0, []⟩ [.evaluated pre allowed, .evaluated post allowed]) :=
    runs_requireAdmission hcancellable hdeadline hscheme hliteral hresolution hglobal hpre hpost
  have hsent : Coroutine.Runs (sendAttempt next (context.withDeadline _ hdeadline))
      (GatewayState.record ⟨0, []⟩ [.evaluated pre allowed, .evaluated post allowed])
      (.error .cancelledError)
      ⟨0, [.evaluated pre allowed, .evaluated post allowed, .sent next, .failed .cancelledError]⟩ := by
    apply Coroutine.Runs.bindRaise
    apply Coroutine.Runs.tryRaise
    · rw [hcopy]
      apply Coroutine.Runs.bindRaise
      exact runs_awaitCollaborator_cancelled hcancellable hdeadline
    · exact .bind (.step ⟨true, rfl, rfl⟩) .raise
  have hactive : Coroutine.Runs (requireActive (context.withDeadline _ hdeadline)) ⟨0, []⟩ (.ok ())
      ⟨0, []⟩ := runs_requireActive hcancellable hdeadline
  have hbounded : Coroutine.Runs (sendBounded request (context.withDeadline _ hdeadline) 0) ⟨0, []⟩
      (.error .cancelledError)
      ⟨0, [.evaluated pre allowed, .evaluated post allowed, .sent next, .failed .cancelledError]⟩ := by
    apply Coroutine.Runs.bind (runs_check hurl)
    apply Coroutine.Runs.loop
    apply Coroutine.Runs.bindRaise
    apply Coroutine.Runs.bind hadmitted
    apply Coroutine.Runs.bind (runs_check hnext)
    exact .bindRaise hsent
  have hexists : ∃ c, (runs request context).Reachable c ∧ c.shared =
      ⟨0, [.evaluated pre allowed, .evaluated post allowed, .sent next, .failed .cancelledError]⟩ := by
    apply Coroutine.reachable_of_runs (s := ⟨0, []⟩) (i := ()) (r := .error .cancelledError)
    · rfl
    · rfl
    · apply Coroutine.Runs.bind (.await ⟨rfl, rfl⟩)
      apply Coroutine.Runs.bindRaise
      apply Coroutine.Runs.bind (runs_check hrequest)
      apply Coroutine.Runs.bind (runs_check hsupported)
      apply Coroutine.Runs.bind (runs_requireActive hcancellable context.deadline_positive)
      apply Coroutine.Runs.bind runs_time
      apply Coroutine.Runs.bind (runs_check (by rw [ensure, dif_pos hdeadline]))
      apply Coroutine.Runs.bind hactive
      exact .bind runs_time hbounded
  obtain ⟨c, hc, hshared⟩ := hexists
  refine ⟨c, hc, ?_⟩
  rw [hshared]

end Library

/-! ## Section 3: One request -/

/-- The standard library on `http://1.1.1.1/`. -/
abbrev literalLibrary : NetworkLibrary where
  lower t := t
  isSpace _ := false
  nfc t := t
  idnaEncode _ := none
  idnaDecode _ := none
  urlsplit url :=
    if url = py "http://1.1.1.1/" then
      some {
        scheme := py "http"
        netloc := py "1.1.1.1"
        path := py "/"
        query := []
        username := none
        password := none
        hostname := some (py "1.1.1.1")
        port := none }
    else
      none
  urljoin _ _ := none
  quote value _ := some value
  parseIpv6 t := some (Fin.ofNat (2 ^ 128) (t.length - 1))
  ipv6Text a := CodePoint.ofChar ':' :: List.replicate a.val (CodePoint.ofChar '0')
  isUnspecified _ := false
  isLoopback _ := false
  isLinkLocal _ := false
  isMulticast _ := false
  isReserved _ := false
  isGlobal _ := true
  parse_text a := by
    rw [List.length_cons, List.length_replicate, Nat.add_sub_cancel]
    exact congrArg some (Fin.ofNat_val_eq_self a)
  text_colon a := List.mem_cons_self ..
  text_characters a := by
    intro c hc
    rcases List.mem_cons.mp hc with rfl | hc
    · decide
    · rw [List.eq_of_mem_replicate hc]
      decide

/-- A `zlib` that is not called. -/
abbrev unusedZlib : ZlibLibrary := ⟨fun _ _ _ => none⟩

def literalLimits : HttpTransferLimits where
  timeout_positive := by norm_num
  requests_positive := by decide
  decompressed_ge := by decide

def literalRequest : OutboundHttpRequest where
  method := .get
  url := py "http://1.1.1.1/"
  limits := literalLimits
  scheme := .http
  headers_bounded := by decide
  body_bounded := by decide
  bodyless := rfl

def literalContext : NetworkOperationContext where
  sessionId := 0
  operationId := 0
  grant := {
    policyId := ⟨py "default", by decide⟩
    schemes := [.http]
    limits := literalLimits
    methods_nonempty := by decide
    schemes_nonempty := by decide }
  deadlineMonotonic := 10
  deadline_positive := by norm_num

def literalUrl : NormalizedHttpUrl :=
  ⟨.http, py "1.1.1.1", 80, py "/", py "http://1.1.1.1/"⟩

/-- 1.1.1.1 -/
def literalAddress : ResolvedHttpAddress := ⟨.v4 16843009⟩

/-- A run that sends this request. -/
theorem exists_sent_literal : ∃ c pre post next,
    (@runs literalLibrary unusedZlib literalRequest literalContext).Reachable c ∧
      c.shared.history =
        [.evaluated pre allowed, .evaluated post allowed, .sent next, .failed .cancelledError] := by
  obtain ⟨c, hc, hhistory⟩ := @exists_sent literalContext literalLibrary literalRequest literalUrl
    literalAddress _ unusedZlib _ _ _ rfl rfl rfl rfl (by decide) rfl rfl rfl rfl rfl rfl rfl
  exact ⟨c, _, _, _, hc, hhistory⟩

/-! ## Section 4: Admission -/

section Admission

variable [NetworkLibrary] [ZlibLibrary] {request : OutboundHttpRequest}
  {context : NetworkOperationContext}

/-- Every call of the transport, in every run, is admitted by the entries
    right before it, and nothing before it has failed. -/
theorem sent_admitted {c : Coroutine.Config Unit GatewayState Raised}
    (h : (runs request context).Reachable c) :
    ∀ before next after, c.shared.history = before ++ .sent next :: after →
      Admitted context before next := by
  intro before next after hsplit
  exact (justified_of_reachable h before _ after hsplit).1

end Admission

/-- The admitted request of a run that sends one. -/
theorem sent_admitted_literal : ∃ c before next after,
    (@runs literalLibrary unusedZlib literalRequest literalContext).Reachable c ∧
      c.shared.history = before ++ .sent next :: after ∧
      @Admitted literalLibrary literalContext before next := by
  obtain ⟨c, pre, post, next, hc, hhistory⟩ := exists_sent_literal
  exact ⟨c, [.evaluated pre allowed, .evaluated post allowed], next, [.failed .cancelledError], hc,
    hhistory,
    @sent_admitted literalLibrary unusedZlib literalRequest literalContext c hc _ _ _ hhistory⟩

/-! ## Section 5: Accounting -/

/-- The totals of a history within the limits of a request. -/
structure Accounted (request : OutboundHttpRequest) (context : NetworkOperationContext)
    (history : List GatewayEvent) : Prop where
  requests_le : requests history ≤ request.limits.maxRequests
  redirects_le : redirects history ≤ request.limits.maxRedirects
  wire_le : request.body.length + totalWireBytes history ≤ request.limits.maxTransferredBytes
  body_le : totalBodyBytes history ≤ request.limits.maxResponseBodyBytes
  within : ∀ before next after, history = before ++ .sent next :: after →
    Within request before next
  reported : ∀ before response after, history = before ++ .built response :: after →
    Reported request context before response

section Accounting

variable [NetworkLibrary] [ZlibLibrary] {request : OutboundHttpRequest}
  {context : NetworkOperationContext} {history : List GatewayEvent}

omit [ZlibLibrary] in
/-- An account of the accepted bytes is within its bound after each response. -/
theorem total_le {f : GatewayEvent → Nat} {bound : Nat} (h : Justified (Justifies request context) history)
    (hf : ∀ before event, Justifies request context before event → f event = 0 ∨
      (before.map f).sum + f event ≤ bound) : (history.map f).sum ≤ bound := by
  induction history using List.reverseRecOn with
  | nil => exact Nat.zero_le _
  | append_singleton history event ih =>
    obtain ⟨hhistory, hevent⟩ := justified_concat.mp h
    rw [List.map_append, List.sum_append, List.map_singleton, List.sum_singleton]
    rcases hf history event hevent with hzero | hle
    · rw [hzero, Nat.add_zero]
      exact ih hhistory
    · exact hle

/-- The accounts are right in every run. -/
theorem accounted_of_reachable {c : Coroutine.Config Unit GatewayState Raised}
    (h : (runs request context).Reachable c) : Accounted request context c.shared.history := by
  have hjustified := justified_of_reachable h
  have hbody : request.body.length = 0 := by
    rw [request.bodyless]
    rfl
  constructor
  · apply hjustified.count_le
    intro before event hsent hP
    cases event with
    | sent next => exact hP.2.1
    | _ => exact nomatch hsent
  · apply hjustified.count_le
    intro before event hfollowed hP
    cases event with
    | followed url => exact hP
    | _ => exact nomatch hfollowed
  · rw [hbody, Nat.zero_add]
    apply total_le hjustified
    intro before event hP
    cases event with
    | accepted response =>
      right
      have hle := hP.1
      rw [hbody, Nat.zero_add] at hle
      exact hle
    | _ => exact .inl rfl
  · apply total_le hjustified
    intro before event hP
    cases event with
    | accepted response => exact .inr hP.2
    | _ => exact .inl rfl
  · exact fun before next after hsplit => (hjustified before _ after hsplit).2.2
  · exact fun before response after hsplit => hjustified before _ after hsplit

end Accounting

/-- The accounts of a run that sends one request. -/
theorem accounted_literal : ∃ c,
    (@runs literalLibrary unusedZlib literalRequest literalContext).Reachable c ∧
      requests c.shared.history = 1 ∧
      Accounted literalRequest literalContext c.shared.history := by
  obtain ⟨c, pre, post, next, hc, hhistory⟩ := exists_sent_literal
  refine ⟨c, hc, ?_, @accounted_of_reachable literalLibrary unusedZlib literalRequest literalContext
    c hc⟩
  rw [hhistory]
  rfl

end Gateway
