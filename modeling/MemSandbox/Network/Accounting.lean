import MemSandbox.Network.Admission

/-! # The redirect loop

    The variables of the loop of `_send_bounded` are sums over its history
    (`Ongoing`).  From that every transport request is admitted and within
    what is left of the limits, and a response that is built has the usage
    that its history shows. -/

open Python GatewayEvent

section Library

variable [NetworkLibrary]

/-! ## Section 1: Justifications -/

/-- The limits of a transport request are within what remains of the totals. -/
structure Within (request : OutboundHttpRequest) (before : List GatewayEvent)
    (next : HttpTransportRequest) : Prop where
  header : next.maxResponseHeaderBytes ≤ request.limits.maxResponseHeaderBytes
  body : totalBodyBytes before + next.maxResponseBodyBytes ≤ request.limits.maxResponseBodyBytes
  wire : request.body.length + totalWireBytes before + next.maxResponseWireBytes ≤
    request.limits.maxTransferredBytes
  body_le_wire : next.maxResponseBodyBytes ≤ next.maxResponseWireBytes

/-- The usage of a response is what its history shows, and only its duration
    may still be refused. -/
structure Reported (request : OutboundHttpRequest) (context : NetworkOperationContext)
    (before : List GatewayEvent) (response : OutboundHttpResponse) : Prop where
  requestCount : response.usage.requestCount = acceptances before
  requestBytes : response.usage.requestBytes = request.body.length
  responseBytes : response.usage.responseBytes = totalBodyBytes before
  responseWireBytes : response.usage.responseWireBytes = totalWireBytes before
  decompressedResponseBytes : response.usage.decompressedResponseBytes = response.body.length
  redirectCount : response.usage.redirectCount = redirects before
  permitted : context.grant.requireResponse request response =
    OutboundHttpGrant.requireDuration request.limits response.usage

/-- What justifies an entry of the history. -/
def Justifies (request : OutboundHttpRequest) (context : NetworkOperationContext)
    (before : List GatewayEvent) : GatewayEvent → Prop
  | .sent next => Admitted context before next ∧ requests before < request.limits.maxRequests ∧
      Within request before next
  | .accepted response =>
      request.body.length + totalWireBytes before + response.wireBytes ≤
        request.limits.maxTransferredBytes ∧
      totalBodyBytes before + response.body.length ≤ request.limits.maxResponseBodyBytes
  | .followed _ => redirects before < request.limits.maxRedirects
  | .built response => Reported request context before response
  | _ => True

theorem idle_justifies {request : OutboundHttpRequest} {context : NetworkOperationContext} :
    Gateway.Idle (Justifies request context) where
  evaluated _ _ _ := trivial
  resolved _ _ _ _ := trivial
  answered _ _ := trivial
  failed _ _ := trivial

theorem justifies_of_withDeadline {request : OutboundHttpRequest} {context : NetworkOperationContext}
    {deadline : ℚ} {hpositive : 0 < deadline} {before : List GatewayEvent} {event : GatewayEvent}
    (h : Justifies request (context.withDeadline deadline hpositive) before event) :
    Justifies request context before event := by
  cases event with
  | sent next =>
    obtain ⟨⟨hscheme, ⟨earlier, admission, hsplit, hadmission⟩, hunfailed⟩, hcount, hwithin⟩ := h
    obtain ⟨hresolution, hglobal, hdialled⟩ := hadmission
    exact ⟨⟨hscheme, ⟨earlier, _, hsplit, .mk hresolution hglobal hdialled⟩, hunfailed⟩, hcount,
      hwithin⟩
  | built response =>
    obtain ⟨hcount, hbytes, hresponse, hwire, hdecompressed, hredirects, hpermitted⟩ := h
    exact ⟨hcount, hbytes, hresponse, hwire, hdecompressed, hredirects, hpermitted⟩
  | _ => exact h

/-- Another deadline justifies the same entries. -/
theorem justifies_withDeadline (request : OutboundHttpRequest) (context : NetworkOperationContext)
    (deadline : ℚ) (hpositive : 0 < deadline) :
    Justifies request (context.withDeadline deadline hpositive) = Justifies request context := by
  funext before event
  apply propext
  constructor
  · exact justifies_of_withDeadline
  · intro h
    have hagain : Justifies request ((context.withDeadline deadline hpositive).withDeadline
      context.deadlineMonotonic context.deadline_positive) before event := h
    exact justifies_of_withDeadline hagain

/-! ## Section 2: Quiet entries -/

/-- An entry that counts for nothing. -/
structure Quiet (event : GatewayEvent) : Prop where
  sent : event.isSent = false
  accepted : event.isAccepted = false
  followed : event.isFollowed = false
  body : event.bodyBytes = 0
  wire : event.wireBytes = 0
  unfailed : ¬ event.Fails

theorem quiet_evaluated {facts : NetworkPolicyRequest} : Quiet (.evaluated facts allowed) :=
  ⟨rfl, rfl, rfl, rfl, rfl, fun h => h rfl⟩

theorem quiet_answered {response : TransportReply} :
    Quiet (.answered (.returned (some response))) :=
  ⟨rfl, rfl, rfl, rfl, rfl, fun h => h response rfl⟩

theorem Admission.quiet {context : NetworkOperationContext} {method : HttpMethod}
    {url : NormalizedHttpUrl} {address : ResolvedHttpAddress} {redirectDepth : Nat}
    {admission : List GatewayEvent} (h : Admission context method url address redirectDepth admission) :
    ∀ event ∈ admission, Quiet event := by
  obtain ⟨hresolution, _, _⟩ := h
  intro event hevent
  simp only [List.mem_append, List.mem_cons, List.not_mem_nil, or_false] at hevent
  rcases hevent with (rfl | hlookup) | rfl
  · exact quiet_evaluated
  · cases hresolution with
    | literal => exact nomatch hlookup
    | name _ hvalidated =>
      obtain rfl := List.mem_singleton.mp hlookup
      refine ⟨rfl, rfl, rfl, rfl, rfl, ?_⟩
      intro hfails
      rw [hfails _ rfl] at hvalidated
      exact nomatch hvalidated
  · exact quiet_evaluated

/-- Quiet entries count for nothing. -/
theorem totals_of_quiet {more : List GatewayEvent} (h : ∀ event ∈ more, Quiet event) :
    requests more = 0 ∧ acceptances more = 0 ∧ redirects more = 0 ∧ totalBodyBytes more = 0 ∧
      totalWireBytes more = 0 := by
  induction more with
  | nil => exact ⟨rfl, rfl, rfl, rfl, rfl⟩
  | cons event more ih =>
    have hevent := h event (List.mem_cons_self ..)
    obtain ⟨hsent, haccepted, hfollowed, hbody, hwire⟩ :=
      ih fun e he => h e (List.mem_cons_of_mem _ he)
    refine ⟨?_, ?_, ?_, ?_, ?_⟩
    · rw [requests, List.countP_cons_of_neg (by rw [hevent.sent]; exact Bool.false_ne_true)]
      exact hsent
    · rw [acceptances, List.countP_cons_of_neg (by rw [hevent.accepted]; exact Bool.false_ne_true)]
      exact haccepted
    · rw [redirects, List.countP_cons_of_neg (by rw [hevent.followed]; exact Bool.false_ne_true)]
      exact hfollowed
    · rw [totalBodyBytes, List.map_cons, List.sum_cons, hevent.body, Nat.zero_add]
      exact hbody
    · rw [totalWireBytes, List.map_cons, List.sum_cons, hevent.wire, Nat.zero_add]
      exact hwire

/-! ## Section 3: The loop -/

/-- The variables of the loop agree with the history. -/
structure Ongoing (request : OutboundHttpRequest) (attempts : Attempts)
    (history : List GatewayEvent) : Prop where
  normalized : Normalized attempts.current
  unfailed : ∀ event ∈ history, ¬ event.Fails
  sent : requests history = attempts.requestCount
  accepted : acceptances history = attempts.requestCount
  followed : redirects history = attempts.redirectCount
  body : totalBodyBytes history = attempts.encodedResponseBytes
  wire : totalWireBytes history = attempts.responseWireBytes
  body_le_wire : attempts.encodedResponseBytes ≤ attempts.responseWireBytes
  body_le : attempts.encodedResponseBytes ≤ request.limits.maxResponseBodyBytes
  wire_le : request.body.length + attempts.responseWireBytes ≤ request.limits.maxTransferredBytes
  sent_le : attempts.requestCount ≤ request.limits.maxRequests
  followed_le : attempts.redirectCount ≤ request.limits.maxRedirects

variable {request : OutboundHttpRequest} {context : NetworkOperationContext} {attempts : Attempts}
  {history : List GatewayEvent}

theorem Ongoing.start {url : NormalizedHttpUrl} (h : Normalized url) :
    Ongoing request { current := url } [] where
  normalized := h
  unfailed event hevent := absurd hevent List.not_mem_nil
  sent := rfl
  accepted := rfl
  followed := rfl
  body := rfl
  wire := rfl
  body_le_wire := Nat.le_refl _
  body_le := Nat.zero_le _
  wire_le := by
    rw [request.bodyless]
    exact Nat.zero_le _
  sent_le := Nat.zero_le _
  followed_le := Nat.zero_le _

theorem Ongoing.quiet {more : List GatewayEvent} (h : Ongoing request attempts history)
    (hmore : ∀ event ∈ more, Quiet event) : Ongoing request attempts (history ++ more) := by
  obtain ⟨hsent, haccepted, hfollowed, hbody, hwire⟩ := totals_of_quiet hmore
  constructor
  · exact h.normalized
  · intro event hevent
    rcases List.mem_append.mp hevent with hold | hnew
    · exact h.unfailed event hold
    · exact (hmore event hnew).unfailed
  · rw [requests_append, hsent, h.sent, Nat.add_zero]
  · rw [acceptances_append, haccepted, h.accepted, Nat.add_zero]
  · rw [redirects_append, hfollowed, h.followed, Nat.add_zero]
  · rw [totalBodyBytes_append, hbody, h.body, Nat.add_zero]
  · rw [totalWireBytes_append, hwire, h.wire, Nat.add_zero]
  · exact h.body_le_wire
  · exact h.body_le
  · exact h.wire_le
  · exact h.sent_le
  · exact h.followed_le

omit [NetworkLibrary] in
theorem nextAttempt_eq_ok {address : ResolvedHttpAddress} {next : HttpTransportRequest}
    (h : nextAttempt request attempts address = .ok next) :
    next.method = request.method ∧ next.destination = ⟨attempts.current, address⟩ ∧
      next.maxResponseHeaderBytes = request.limits.maxResponseHeaderBytes ∧
      attempts.encodedResponseBytes + next.maxResponseBodyBytes ≤
        request.limits.maxResponseBodyBytes ∧
      request.body.length + attempts.responseWireBytes + next.maxResponseWireBytes ≤
        request.limits.maxTransferredBytes ∧
      next.maxResponseBodyBytes ≤ next.maxResponseWireBytes := by
  obtain ⟨_, htransfer, h⟩ := Except.bind_eq_ok_iff.mp h
  obtain ⟨_, hresponse, h⟩ := Except.bind_eq_ok_iff.mp h
  obtain ⟨_, _, h⟩ := Except.bind_eq_ok_iff.mp h
  obtain ⟨_, _, h⟩ := Except.bind_eq_ok_iff.mp h
  obtain rfl := Except.ok.inj h
  rw [require_eq_ok] at htransfer hresponse
  refine ⟨rfl, rfl, rfl, ?_, ?_, ?_⟩ <;> dsimp only <;> omega

theorem Ongoing.within {address : ResolvedHttpAddress} {next : HttpTransportRequest}
    (h : Ongoing request attempts history) (hnext : nextAttempt request attempts address = .ok next) :
    Within request history next := by
  obtain ⟨_, _, hheader, hbody, hwire, hle⟩ := nextAttempt_eq_ok hnext
  constructor
  · exact Nat.le_of_eq hheader
  · rw [h.body]
    exact hbody
  · rw [h.wire]
    exact hwire
  · exact hle

/-- A transport request may be sent once it is admitted. -/
theorem Ongoing.justifies_sent {address : ResolvedHttpAddress} {next : HttpTransportRequest}
    {admission : List GatewayEvent} (h : Ongoing request attempts history)
    (hcount : attempts.requestCount < request.limits.maxRequests)
    (hscheme : attempts.current.scheme ∈ context.grant.schemes)
    (hadmission : Admission context request.method attempts.current address attempts.redirectCount
      admission)
    (hnext : nextAttempt request attempts address = .ok next) :
    Justifies request context (history ++ admission) (.sent next) := by
  have hquiet := h.quiet hadmission.quiet
  obtain ⟨hmethod, hdestination, _⟩ := nextAttempt_eq_ok hnext
  refine ⟨⟨?_, ⟨history, admission, rfl, ?_⟩, hquiet.unfailed⟩, ?_, hquiet.within hnext⟩
  · rw [hdestination]
    exact hscheme
  · rw [hmethod, hdestination, hquiet.followed]
    exact hadmission
  · rw [hquiet.sent]
    exact hcount

theorem requireTransportResponse_eq_ok {reply : TransportReply} {next : HttpTransportRequest}
    {response : HttpTransportResponse} (h : requireTransportResponse reply next = .ok response) :
    response.headerBytes ≤ next.maxResponseHeaderBytes ∧
      response.body.length ≤ next.maxResponseBodyBytes ∧
      response.wireBytes ≤ next.maxResponseWireBytes := by
  obtain ⟨_, _, h⟩ := Except.bind_eq_ok_iff.mp h
  obtain ⟨_, hheader, h⟩ := Except.bind_eq_ok_iff.mp h
  obtain ⟨_, hbody, h⟩ := Except.bind_eq_ok_iff.mp h
  obtain ⟨_, hwire, h⟩ := Except.bind_eq_ok_iff.mp h
  obtain ⟨_, _, h⟩ := Except.bind_eq_ok_iff.mp h
  obtain ⟨_, _, h⟩ := Except.bind_eq_ok_iff.mp h
  obtain ⟨_, _, h⟩ := Except.bind_eq_ok_iff.mp h
  obtain rfl := Except.ok.inj h
  exact ⟨require_eq_ok.mp hheader, require_eq_ok.mp hbody, require_eq_ok.mp hwire⟩

/-- The variables after a response. -/
def Attempts.accept (attempts : Attempts) (response : HttpTransportResponse) : Attempts :=
  { attempts with
    requestCount := attempts.requestCount + 1
    encodedResponseBytes := attempts.encodedResponseBytes + response.body.length
    responseWireBytes := attempts.responseWireBytes + response.wireBytes }

/-- An accepted response is counted once. -/
theorem Ongoing.accept (context : NetworkOperationContext) {address : ResolvedHttpAddress} {next : HttpTransportRequest}
    {reply : TransportReply} {response : HttpTransportResponse}
    (h : Ongoing request attempts history)
    (hcount : attempts.requestCount < request.limits.maxRequests)
    (hnext : nextAttempt request attempts address = .ok next)
    (hresponse : requireTransportResponse reply next = .ok response) :
    Justifies request context
        (history ++ [GatewayEvent.sent next, .answered (.returned (some reply))])
        (.accepted response) ∧
      Ongoing request (attempts.accept response)
        (history ++
          [GatewayEvent.sent next, .answered (.returned (some reply)), .accepted response]) := by
  obtain ⟨_, _, _, hbody, hwire, _⟩ := nextAttempt_eq_ok hnext
  obtain ⟨_, hbody', hwire'⟩ := requireTransportResponse_eq_ok hresponse
  have hwithin := response.body_within
  have hsum := response.wire_sum
  have hle := h.body_le_wire
  have hwire_le : request.body.length + (attempts.responseWireBytes + response.wireBytes) ≤
      request.limits.maxTransferredBytes := by omega
  have hbody_le : attempts.encodedResponseBytes + response.body.length ≤
      request.limits.maxResponseBodyBytes := by omega
  constructor
  · constructor
    · rw [totalWireBytes_append, h.wire]
      simpa [totalWireBytes, wireBytes, Nat.add_assoc] using hwire_le
    · rw [totalBodyBytes_append, h.body]
      simpa [totalBodyBytes, bodyBytes] using hbody_le
  · constructor
    · exact h.normalized
    · intro event hevent
      simp only [List.mem_append, List.mem_cons, List.not_mem_nil, or_false] at hevent
      rcases hevent with hold | rfl | rfl | rfl
      · exact h.unfailed event hold
      · exact id
      · exact quiet_answered.unfailed
      · exact id
    · rw [requests_append, h.sent]
      rfl
    · rw [acceptances_append, h.accepted]
      rfl
    · rw [redirects_append, h.followed]
      rfl
    · rw [totalBodyBytes_append, h.body]
      simp [totalBodyBytes, bodyBytes, Attempts.accept]
    · rw [totalWireBytes_append, h.wire]
      simp [totalWireBytes, wireBytes, Attempts.accept]
    · show attempts.encodedResponseBytes + response.body.length ≤
        attempts.responseWireBytes + response.wireBytes
      omega
    · exact hbody_le
    · exact hwire_le
    · exact hcount
    · exact h.followed_le

/-- A followed redirect is counted once. -/
theorem Ongoing.follow {url : NormalizedHttpUrl} (h : Ongoing request attempts history)
    (hcount : attempts.redirectCount < request.limits.maxRedirects) (hurl : Normalized url) :
    Ongoing request { attempts with current := url, redirectCount := attempts.redirectCount + 1 }
      (history ++ [GatewayEvent.followed url]) := by
  constructor
  · exact hurl
  · intro event hevent
    rcases List.mem_append.mp hevent with hold | hnew
    · exact h.unfailed event hold
    · obtain rfl := List.mem_singleton.mp hnew
      exact id
  · rw [requests_append, h.sent]
    rfl
  · rw [acceptances_append, h.accepted]
    rfl
  · rw [redirects_append, h.followed]
    rfl
  · rw [totalBodyBytes_append, h.body]
    rfl
  · rw [totalWireBytes_append, h.wire]
    rfl
  · exact h.body_le_wire
  · exact h.body_le
  · exact h.wire_le
  · exact h.sent_le
  · exact hcount

/-! ## Section 4: The published response -/

omit [NetworkLibrary] in
/-- Of the final check only that of the duration is left. -/
theorem requireResponse_eq_requireDuration {grant : OutboundHttpGrant}
    {response : OutboundHttpResponse} (hrequest : grant.requireRequest request = .ok ())
    (hheaders : headersSize response.headers ≤ request.limits.maxResponseHeaderBytes)
    (hbody : response.body.length ≤ request.limits.maxDecompressedResponseBytes)
    (husage : OutboundHttpGrant.requireUsage request.limits response.body response.usage = .ok ())
    (hhead : ¬(request.method = .head ∧ response.body ≠ [])) :
    grant.requireResponse request response =
      OutboundHttpGrant.requireDuration request.limits response.usage := by
  unfold OutboundHttpGrant.requireResponse
  rw [hrequest, husage, require, if_pos response.final.1, require, if_pos hheaders, require,
    if_pos hbody, require, if_pos hhead]
  show (OutboundHttpGrant.requireDuration request.limits response.usage >>= fun _ => .ok ()) = _
  cases OutboundHttpGrant.requireDuration request.limits response.usage <;> rfl

omit [NetworkLibrary] in
theorem HttpTransferUsage.new_eq_ok {requestCount requestBytes responseBytes responseWireBytes
    decompressedResponseBytes redirectCount : Nat} {durationMs : ℚ} {usage : HttpTransferUsage}
    (h : HttpTransferUsage.new requestCount requestBytes responseBytes responseWireBytes
      decompressedResponseBytes redirectCount durationMs = .ok usage) :
    usage.requestCount = requestCount ∧ usage.requestBytes = requestBytes ∧
      usage.responseBytes = responseBytes ∧ usage.responseWireBytes = responseWireBytes ∧
      usage.decompressedResponseBytes = decompressedResponseBytes ∧
      usage.redirectCount = redirectCount := by
  unfold HttpTransferUsage.new at h
  split at h
  · split at h
    · split at h
      · obtain rfl := Except.ok.inj h
        exact ⟨rfl, rfl, rfl, rfl, rfl, rfl⟩
      · exact nomatch h
    · exact nomatch h
  · exact nomatch h

omit [NetworkLibrary] in
theorem OutboundHttpResponse.new_eq_ok {statusCode : Nat} {headers : List HttpHeader} {body : Bytes}
    {usage : HttpTransferUsage} {response : OutboundHttpResponse}
    (h : OutboundHttpResponse.new statusCode headers body usage = .ok response) :
    response.headers = headers ∧ response.body = body ∧ response.usage = usage := by
  unfold OutboundHttpResponse.new at h
  split at h
  · obtain rfl := Except.ok.inj h
    exact ⟨rfl, rfl, rfl⟩
  · exact nomatch h

variable [ZlibLibrary]

theorem publishedResponse_eq_ok {method : HttpMethod} {response : HttpTransportResponse}
    {maximum : Nat} {body : Bytes} {headers : List HttpHeader}
    (h : publishedResponse method response maximum = .ok (body, headers)) :
    headers = publishedHeaders response.headers ∧ body.length ≤ maximum ∧
      ¬(method = .head ∧ body ≠ []) := by
  unfold publishedResponse at h
  split at h
  · obtain ⟨_, _, h⟩ := Except.bind_eq_ok_iff.mp h
    obtain ⟨rfl, rfl⟩ := Prod.mk.inj (Except.ok.inj h)
    exact ⟨rfl, Nat.zero_le _, fun hbody => hbody.2 rfl⟩
  · rename_i homits
    obtain ⟨_, _, h⟩ := Except.bind_eq_ok_iff.mp h
    obtain ⟨decoded, _, h⟩ := Except.bind_eq_ok_iff.mp h
    obtain ⟨_, hmaximum, h⟩ := Except.bind_eq_ok_iff.mp h
    obtain ⟨rfl, rfl⟩ := Prod.mk.inj (Except.ok.inj h)
    refine ⟨rfl, require_eq_ok.mp hmaximum, ?_⟩
    intro hhead
    apply homits
    simp [responseOmitsBody, hhead.1]

/-- A response that is built reports its history. -/
theorem Ongoing.reported {response : HttpTransportResponse} {built : OutboundHttpResponse}
    {body : Bytes} {headers : List HttpHeader} {usage : HttpTransferUsage} {durationMs : ℚ}
    (h : Ongoing request attempts history)
    (hrequest : context.grant.requireRequest request = .ok ())
    (hheader : response.headerBytes ≤ request.limits.maxResponseHeaderBytes)
    (hpublished : publishedResponse request.method response
      request.limits.maxDecompressedResponseBytes = .ok (body, headers))
    (husage : HttpTransferUsage.new attempts.requestCount request.body.length
      attempts.encodedResponseBytes attempts.responseWireBytes body.length attempts.redirectCount
      durationMs = .ok usage)
    (hbuilt : OutboundHttpResponse.new response.statusCode headers body usage = .ok built) :
    Reported request context history built := by
  obtain ⟨hheaders, hbody, hhead⟩ := publishedResponse_eq_ok hpublished
  obtain ⟨hcount, hbytes, hresponse, hwire, hdecompressed, hredirects⟩ :=
    HttpTransferUsage.new_eq_ok husage
  obtain ⟨hbuiltHeaders, hbuiltBody, rfl⟩ := OutboundHttpResponse.new_eq_ok hbuilt
  constructor
  · rw [hcount, h.accepted]
  · exact hbytes
  · rw [hresponse, h.body]
  · rw [hwire, h.wire]
  · rw [hdecompressed, hbuiltBody]
  · rw [hredirects, h.followed]
  · apply requireResponse_eq_requireDuration hrequest
    · rw [hbuiltHeaders, hheaders]
      calc headersSize (publishedHeaders response.headers)
          ≤ headersSize response.headers := headersSize_filter_le _ _
        _ ≤ response.headerBytes := response.headers_within
        _ ≤ request.limits.maxResponseHeaderBytes := hheader
    · rw [hbuiltBody]
      exact hbody
    · have hsent := h.sent_le
      have hreceived := h.body_le
      have hfollowed := h.followed_le
      have htransferred := h.wire_le
      unfold OutboundHttpGrant.requireUsage
      rw [hcount, hbytes, hresponse, hwire, hdecompressed, hredirects, hbuiltBody]
      simp only [require, hsent, hreceived, hbody, hfollowed, htransferred, if_true]
      rfl
    · rw [hbuiltBody]
      exact hhead

/-! ## Section 5: A whole request -/

namespace Gateway

omit [ZlibLibrary] in
theorem normalizeRedirect_normalized {current url : NormalizedHttpUrl} {location : Text}
    (h : normalizeRedirect current location = .ok url) : Normalized url := by
  unfold normalizeRedirect at h
  split at h
  · exact nomatch h
  · exact ⟨_, rewrap_eq_ok.mp h⟩

theorem Meets.publish {started : ℚ} {response : HttpTransportResponse}
    (h : Ongoing request attempts history)
    (hrequest : context.grant.requireRequest request = .ok ())
    (hheader : response.headerBytes ≤ request.limits.maxResponseHeaderBytes) :
    Meets (Justifies request context) (publish request context started attempts response) history
      fun _ _ => True := by
  apply Meets.bind (Meets.check idle_justifies (Q := fun published h => h = history ∧
    publishedResponse request.method response request.limits.maxDecompressedResponseBytes =
      .ok published) fun _ hp => ⟨rfl, hp⟩)
  intro published h₁ hh₁
  obtain ⟨body, headers⟩ := published
  obtain ⟨rfl, hpublished⟩ := hh₁
  apply Meets.bind (Meets.requireActive idle_justifies (Q := fun _ h => h = h₁) rfl)
  intro _ h₂ hh₂
  subst hh₂
  apply Meets.bind (Meets.time (Q := fun _ h => h = h₂) fun _ => rfl)
  intro now h₃ hh₃
  subst hh₃
  apply Meets.bind (Meets.check idle_justifies (Q := fun usage h => h = h₃ ∧
    HttpTransferUsage.new attempts.requestCount request.body.length attempts.encodedResponseBytes
      attempts.responseWireBytes body.length attempts.redirectCount ((now - started) * 1000) =
      .ok usage) fun _ hu => ⟨rfl, hu⟩)
  intro usage h₄ hh₄
  obtain ⟨rfl, husage⟩ := hh₄
  apply Meets.bind (Meets.check idle_justifies (Q := fun built h => h = h₄ ∧
    OutboundHttpResponse.new response.statusCode headers body usage = .ok built)
    fun _ hb => ⟨rfl, hb⟩)
  intro built h₅ hh₅
  obtain ⟨rfl, hbuilt⟩ := hh₅
  apply Meets.bind (Meets.record (Q := fun _ _ => True)
    (h.reported hrequest hheader hpublished husage hbuilt) trivial)
  intro _ h₆ _
  apply Meets.bind (Meets.check idle_justifies (Q := fun _ _ => True) fun _ _ => trivial)
  intro _ h₇ _
  exact Meets.pure trivial

/-- The loop keeps its variables in agreement with the history. -/
theorem Meets.attempt {started : ℚ} (h : Ongoing request attempts history)
    (hrequest : context.grant.requireRequest request = .ok ()) :
    Meets (Justifies request context) (attempt request context started attempts) history
      (Sum.elim (Ongoing request) fun _ _ => True) := by
  apply Meets.bind (Meets.requireAdmission idle_justifies h.normalized (Q := fun address h => ∃ admission,
    attempts.requestCount < request.limits.maxRequests ∧
    attempts.current.scheme ∈ context.grant.schemes ∧
    Admission context request.method attempts.current address attempts.redirectCount admission ∧
    h = history ++ admission)
    fun address admission hcount hscheme hadmission => ⟨admission, hcount, hscheme, hadmission, rfl⟩)
  intro address h₁ hh₁
  obtain ⟨admission, hcount, hscheme, hadmission, rfl⟩ := hh₁
  apply Meets.bind (Meets.check idle_justifies (Q := fun next h => h = history ++ admission ∧
    nextAttempt request attempts address = .ok next) fun _ hn => ⟨rfl, hn⟩)
  intro next h₂ hh₂
  obtain ⟨rfl, hnext⟩ := hh₂
  apply Meets.bind (Meets.sendAttempt idle_justifies
    (h.justifies_sent hcount hscheme hadmission hnext) (Q := fun reply h =>
      h = history ++ admission ++ [GatewayEvent.sent next, .answered (.returned (some reply))])
      fun _ => rfl)
  intro reply h₃ hh₃
  subst hh₃
  apply Meets.bind (Meets.requireActive idle_justifies (Q := fun _ h => h = _) rfl)
  intro _ h₄ hh₄
  subst hh₄
  apply Meets.bind (Meets.check idle_justifies (Q := fun response h =>
    requireTransportResponse reply next = .ok response ∧ h = _) fun _ hr => ⟨hr, rfl⟩)
  intro response h₅ hh₅
  obtain ⟨hresponse, rfl⟩ := hh₅
  obtain ⟨haccepted, hongoing⟩ :=
    (h.quiet hadmission.quiet).accept context hcount hnext hresponse
  apply Meets.bind (Meets.check idle_justifies (Q := fun _ h => h = _) fun _ _ => rfl)
  intro _ h₆ hh₆
  subst hh₆
  apply Meets.bind (Meets.record (Q := fun _ h => h = history ++ admission ++
    [.sent next, .answered (.returned (some reply)), .accepted response]) haccepted (by simp))
  intro _ h₇ hh₇
  subst hh₇
  apply Meets.bind (Meets.check idle_justifies (Q := fun _ h => h = _) fun _ _ => rfl)
  intro location h₈ hh₈
  subst hh₈
  split
  · apply Meets.bind (Meets.check idle_justifies (Q := fun _ h => h = _ ∧
      attempts.redirectCount < request.limits.maxRedirects) fun _ hr => ⟨rfl, require_eq_ok.mp hr⟩)
    intro _ h₉ hh₉
    obtain ⟨rfl, hredirects⟩ := hh₉
    apply Meets.bind (Meets.check idle_justifies (Q := fun url h => h = _ ∧ Normalized url)
      fun _ hu => ⟨rfl, normalizeRedirect_normalized hu⟩)
    intro url h₁₀ hh₁₀
    obtain ⟨rfl, hurl⟩ := hh₁₀
    have hfollowed := hongoing.followed
    apply Meets.bind (Meets.record (Q := fun _ h => h = _) ?_ rfl)
    · intro _ h₁₁ hh₁₁
      subst hh₁₁
      exact Meets.pure (hongoing.follow hredirects hurl)
    · show redirects _ < _
      rw [hfollowed]
      exact hredirects
  · apply Meets.bind (Meets.publish hongoing hrequest ?_)
    · intro _ _ _
      exact Meets.pure trivial
    · obtain ⟨_, _, hheader, _⟩ := nextAttempt_eq_ok hnext
      rw [← hheader]
      exact (requireTransportResponse_eq_ok hresponse).1

theorem Meets.sendBounded {started : ℚ} (hrequest : context.grant.requireRequest request = .ok ()) :
    Meets (Justifies request context) (sendBounded request context started) []
      fun _ _ => True := by
  apply Meets.bind (Meets.check idle_justifies (Q := fun url h => h = [] ∧ Normalized url)
    fun _ hu => ⟨rfl, _, hu⟩)
  intro url h₁ hh₁
  obtain ⟨rfl, hurl⟩ := hh₁
  apply Meets.loop (Ongoing request) (Ongoing.start hurl)
  intro attempts h₂ hongoing
  exact Meets.attempt hongoing hrequest

/-- Every entry that `send` makes is justified. -/
theorem Meets.send : Meets (Justifies request context) (send request context) [] fun _ _ => True := by
  apply Meets.bind (Meets.check idle_justifies (Q := fun _ h => h = [] ∧
    context.grant.requireRequest request = .ok ()) fun _ hr => ⟨rfl, hr⟩)
  intro _ h₁ hh₁
  obtain ⟨rfl, hrequest⟩ := hh₁
  apply Meets.bind (Meets.check idle_justifies (Q := fun _ h => h = []) fun _ _ => rfl)
  intro _ h₂ hh₂
  subst hh₂
  apply Meets.bind (Meets.requireActive idle_justifies (Q := fun _ h => h = []) rfl)
  intro _ h₃ hh₃
  subst hh₃
  apply Meets.bind (Meets.time (Q := fun _ h => h = []) fun _ => rfl)
  intro now h₄ hh₄
  subst hh₄
  apply Meets.bind (Meets.check idle_justifies (Q := fun _ h => h = []) fun _ _ => rfl)
  intro positive h₅ hh₅
  subst hh₅
  obtain ⟨hdeadline⟩ := positive
  apply Meets.bind (Meets.requireActive idle_justifies (Q := fun _ h => h = []) rfl)
  intro _ h₆ hh₆
  subst hh₆
  apply Meets.bind (Meets.time (Q := fun _ h => h = []) fun _ => rfl)
  intro started h₇ hh₇
  subst hh₇
  have hbounded : Meets (Justifies request (context.withDeadline _ hdeadline))
      (Gateway.sendBounded request (context.withDeadline _ hdeadline) started) []
      fun _ _ => True := Meets.sendBounded hrequest
  rw [justifies_withDeadline] at hbounded
  exact hbounded

/-- The runs of `send`, from the first step of its task. -/
def runs (request : OutboundHttpRequest) (context : NetworkOperationContext) :
    System (Coroutine.Config Unit GatewayState Raised) (Option Unit) :=
  Coroutine.system (fun _ _ => False) (fun s => s.history = []) fun _ => do
    .await fun s r s' => r = .ok () ∧ s' = s
    let _ ← send request context
    return

/-- What `send` justifies from the empty history on holds in every run. -/
theorem justified_of_meets {P : List GatewayEvent → GatewayEvent → Prop}
    (hsend : Meets P (send request context) [] fun _ _ => True)
    {c : Coroutine.Config Unit GatewayState Raised} (h : (runs request context).Reachable c) :
    Justified P c.shared.history := by
  apply Coroutine.invariant_of_reachable (G := fun _ => Keeps P)
    (Q := fun _ _ _ => True) (I := fun s => Justified P s.history) ?_ ?_ ?_
    ?_ ?_ ?_ h
  · exact fun _ _ _ _ _ _ => trivial
  · exact fun _ => .bind .await
  · intro i s hs
    apply Coroutine.pre_await (P := fun u => u.history = [])
    · intro u u' hother
      rcases hother with hfalse | ⟨j, hj, _⟩
      · exact hfalse.elim
      · exact absurd rfl hj
    · exact hs
    · intro v r v' hv hw
      obtain ⟨rfl, rfl⟩ := hw
      refine ⟨keeps_refl, ?_⟩
      apply Coroutine.wp_mono (hsend v' hv)
      intro r u _
      cases r with
      | ok a => trivial
      | error e => trivial
  · intro s hs
    rw [hs]
    exact justified_nil
  · exact fun _ _ hfalse => hfalse.elim
  · exact fun _ _ _ hkeeps hs => hkeeps hs

/-- In every run every entry of the history is justified. -/
theorem justified_of_reachable {c : Coroutine.Config Unit GatewayState Raised}
    (h : (runs request context).Reachable c) :
    Justified (Justifies request context) c.shared.history :=
  justified_of_meets Meets.send h

end Gateway
end Library
