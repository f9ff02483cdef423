import MemSandbox.Network.GatewayRules

/-! # Admission

    What the history of a gateway shows before a transport is called: the two
    evaluations by the policy, the resolution between them, and nothing that
    failed.  The redirect loop keeps this, whatever the collaborators do. -/

open Python

/-! ## Section 1: What a history shows -/

namespace GatewayEvent

def isSent : GatewayEvent → Bool
  | .sent _ => true
  | _ => false

def isAccepted : GatewayEvent → Bool
  | .accepted _ => true
  | _ => false

def isFollowed : GatewayEvent → Bool
  | .followed _ => true
  | _ => false

/-- The encoded body bytes that are accepted. -/
def bodyBytes : GatewayEvent → Nat
  | .accepted response => response.body.length
  | _ => 0

/-- The wire bytes that are accepted. -/
def wireBytes : GatewayEvent → Nat
  | .accepted response => response.wireBytes
  | _ => 0

/-- The answer of a policy that allows. -/
def allowed : Reply (Option PolicyReply) := .returned (some ⟨some .allow, some .allowed⟩)

/-- A step that is denied, fails, times out or is cancelled. -/
def Fails [NetworkLibrary] : GatewayEvent → Prop
  | .evaluated _ reply => reply ≠ allowed
  | .resolved hostname _ reply =>
    ∀ resolution, reply = .returned resolution → validatedResolution resolution hostname = none
  | .answered reply => ∀ response, reply ≠ .returned (some response)
  | .failed _ => True
  | _ => False

end GatewayEvent

open GatewayEvent

/-- How many redirects have been followed. -/
def redirects (history : List GatewayEvent) : Nat := history.countP isFollowed

/-- How many transport requests have been sent. -/
def requests (history : List GatewayEvent) : Nat := history.countP isSent

/-- How many responses have been accepted. -/
def acceptances (history : List GatewayEvent) : Nat := history.countP isAccepted

def totalBodyBytes (history : List GatewayEvent) : Nat := (history.map bodyBytes).sum

def totalWireBytes (history : List GatewayEvent) : Nat := (history.map wireBytes).sum

theorem requests_append (history more : List GatewayEvent) :
    requests (history ++ more) = requests history + requests more := List.countP_append ..

theorem acceptances_append (history more : List GatewayEvent) :
    acceptances (history ++ more) = acceptances history + acceptances more := List.countP_append ..

theorem redirects_append (history more : List GatewayEvent) :
    redirects (history ++ more) = redirects history + redirects more := List.countP_append ..

theorem totalBodyBytes_append (history more : List GatewayEvent) :
    totalBodyBytes (history ++ more) = totalBodyBytes history + totalBodyBytes more := by
  simp [totalBodyBytes]

theorem totalWireBytes_append (history more : List GatewayEvent) :
    totalWireBytes (history ++ more) = totalWireBytes history + totalWireBytes more := by
  simp [totalWireBytes]

section Library

variable [NetworkLibrary]

/-- What the policy has to be asked about a URL. -/
def factsOf (context : NetworkOperationContext) (method : HttpMethod) (url : NormalizedHttpUrl)
    (redirectDepth : Nat) (phase : NetworkPolicyPhase) (addresses : List ResolvedHttpAddress)
    (canonicalHostname : Option Text) : NetworkPolicyRequest where
  policyId := context.grant.policyId
  sessionId := context.sessionId
  operationId := context.operationId
  phase := phase
  method := method
  scheme := url.scheme
  hostname := url.hostname
  port := url.port
  redirectDepth := redirectDepth
  addresses := addresses
  canonicalHostname := canonicalHostname

/-- What the history shows of a resolution to these addresses and this name:
    nothing if the host is an address itself. -/
inductive Resolution (url : NormalizedHttpUrl) :
    List GatewayEvent → List ResolvedHttpAddress → Option Text → Prop
  | literal {address : ResolvedHttpAddress} (h : url.ipLiteral = some address) :
      Resolution url [] [address] none
  | name {reply : Option ResolutionReply} {resolution : NetworkResolution}
      (hname : url.ipLiteral = none) (h : validatedResolution reply url.hostname = some resolution) :
      Resolution url [.resolved url.hostname url.port (.returned reply)] resolution.addresses
        resolution.canonicalHostname

/-- The entries that admit a transport request, in their order. -/
inductive Admission (context : NetworkOperationContext) (method : HttpMethod)
    (url : NormalizedHttpUrl) (address : ResolvedHttpAddress) (redirectDepth : Nat) :
    List GatewayEvent → Prop
  | mk {lookup : List GatewayEvent} {addresses : List ResolvedHttpAddress}
      {canonicalHostname : Option Text} (resolution : Resolution url lookup addresses canonicalHostname)
      (global : ∀ address ∈ addresses, address.classification = .global)
      (dialled : addresses.head? = some address) :
      Admission context method url address redirectDepth
        (.evaluated (factsOf context method url redirectDepth .preResolution [] none) allowed ::
          lookup ++
          [.evaluated (factsOf context method url redirectDepth .postResolution addresses
            canonicalHostname) allowed])

/-- A transport request that may be sent after `before`. -/
structure Admitted (context : NetworkOperationContext) (before : List GatewayEvent)
    (request : HttpTransportRequest) : Prop where
  scheme : request.destination.url.scheme ∈ context.grant.schemes
  admission : ∃ earlier admission, before = earlier ++ admission ∧
    Admission context request.method request.destination.url request.destination.address
      (redirects before) admission
  unfailed : ∀ event ∈ before, ¬ event.Fails

/-! ## Section 2: Copies -/

omit [NetworkLibrary] in
/-- A traversal that changes no element changes nothing. -/
theorem mapM_eq_self {α ε : Type} {f : α → Except ε α} (hf : ∀ a b, f a = .ok b → b = a) :
    ∀ {l l' : List α}, l.mapM f = .ok l' → l' = l
  | [], l', h => (Except.ok.inj h).symm
  | a :: l, l', h => by
    rw [List.mapM_cons] at h
    obtain ⟨b, hb, h⟩ := Except.bind_eq_ok_iff.mp h
    obtain ⟨bs, hbs, h⟩ := Except.bind_eq_ok_iff.mp h
    rw [← Except.ok.inj h, hf a b hb, mapM_eq_self hf hbs]

omit [NetworkLibrary] in
theorem HttpHeader.new_eq_ok {name value : Text} {header : HttpHeader}
    (h : HttpHeader.new name value = .ok header) : header.name = name ∧ header.value = value := by
  unfold HttpHeader.new at h
  split at h
  · split at h
    · split at h
      · exact nomatch h
      · split at h
        · obtain rfl := Except.ok.inj h
          exact ⟨rfl, rfl⟩
        · exact nomatch h
    · exact nomatch h
  · exact nomatch h

omit [NetworkLibrary] in
theorem HttpHeader.new_self {header copy : HttpHeader}
    (h : HttpHeader.new header.name header.value = .ok copy) : copy = header := by
  obtain ⟨hname, hvalue⟩ := HttpHeader.new_eq_ok h
  cases copy
  cases header
  simp_all

omit [NetworkLibrary] in
theorem NormalizedHttpUrl.new_eq_ok {scheme : HttpScheme} {hostname target canonicalUrl : Text}
    {port : Nat} {url : NormalizedHttpUrl}
    (h : NormalizedHttpUrl.new scheme hostname port target canonicalUrl = .ok url) :
    url = ⟨scheme, hostname, port, target, canonicalUrl⟩ := by
  obtain ⟨_, _, h⟩ := Except.bind_eq_ok_iff.mp h
  obtain ⟨_, _, h⟩ := Except.bind_eq_ok_iff.mp h
  obtain ⟨_, _, h⟩ := Except.bind_eq_ok_iff.mp h
  exact (Except.ok.inj h).symm

/-- The copy of a transport request is the request. -/
theorem copyTransportRequest_eq_ok {request copy : HttpTransportRequest}
    (h : copyTransportRequest request = .ok copy) : copy = request := by
  obtain ⟨url, hurl, h⟩ := Except.bind_eq_ok_iff.mp h
  obtain ⟨address, haddress, h⟩ := Except.bind_eq_ok_iff.mp h
  obtain ⟨headers, hheaders, h⟩ := Except.bind_eq_ok_iff.mp h
  rw [ResolvedHttpAddress.new_value] at haddress
  rw [← Except.ok.inj h, NormalizedHttpUrl.new_eq_ok hurl, ← Except.ok.inj haddress,
    mapM_eq_self (fun _ _ => HttpHeader.new_self) hheaders]

theorem copyResolvedAddresses_eq_ok {addresses copy : List ResolvedHttpAddress}
    (h : copyResolvedAddresses addresses = .ok copy) : copy = addresses := by
  apply mapM_eq_self _ h
  intro address b hb
  rw [ResolvedHttpAddress.new_value] at hb
  exact (Except.ok.inj hb).symm

/-! ## Section 3: Normalised values -/

/-- A URL that `normalize_http_url` has returned. -/
def Normalized (url : NormalizedHttpUrl) : Prop := ∃ text, normalizeHttpUrl text = .ok url

/-- A canonical name that `NetworkResolution` has normalised. -/
def CanonicalName (name : Option Text) : Prop := ∃ raw, normalizeCanonical raw = .ok name

theorem canonicalName_none : CanonicalName none := ⟨none, rfl⟩

theorem Normalized.hostname {url : NormalizedHttpUrl} (h : Normalized url) :
    ∃ raw, normalizeHostname raw = .ok url.hostname := by
  obtain ⟨text, h⟩ := h
  unfold normalizeHttpUrl at h
  split at h
  · exact nomatch h
  obtain ⟨_, _, h⟩ := Except.bind_eq_ok_iff.mp h
  split at h
  · exact nomatch h
  split at h
  · exact nomatch h
  unfold normalizeSplit at h
  split at h
  · exact nomatch h
  obtain ⟨_, _, h⟩ := Except.bind_eq_ok_iff.mp h
  obtain ⟨_, _, h⟩ := Except.bind_eq_ok_iff.mp h
  obtain ⟨_, _, h⟩ := Except.bind_eq_ok_iff.mp h
  obtain ⟨hostname, hhostname, h⟩ := Except.bind_eq_ok_iff.mp h
  obtain ⟨_, _, h⟩ := Except.bind_eq_ok_iff.mp h
  obtain ⟨_, _, h⟩ := Except.bind_eq_ok_iff.mp h
  obtain ⟨_, _, h⟩ := Except.bind_eq_ok_iff.mp h
  obtain ⟨_, _, h⟩ := Except.bind_eq_ok_iff.mp h
  obtain ⟨_, _, h⟩ := Except.bind_eq_ok_iff.mp h
  obtain ⟨_, _, h⟩ := Except.bind_eq_ok_iff.mp h
  rw [NormalizedHttpUrl.new_eq_ok h]
  exact ⟨_, hhostname⟩

theorem CanonicalName.normalize {name name' : Option Text} (h : CanonicalName name)
    (h' : normalizeCanonical name = .ok name') : name' = name := by
  obtain ⟨raw, h⟩ := h
  cases raw with
  | none =>
    obtain rfl := Except.ok.inj h
    exact (Except.ok.inj h').symm
  | some raw =>
    obtain ⟨canonical, hcanonical, h⟩ := Except.bind_eq_ok_iff.mp h
    obtain rfl := Except.ok.inj h
    obtain ⟨canonical', hcanonical', h'⟩ := Except.bind_eq_ok_iff.mp h'
    rw [← Except.ok.inj h', normalizeHostname_idem hcanonical hcanonical']

/-- The policy is asked about exactly the URL, the addresses and the name. -/
theorem policyFacts_eq_ok {url : NormalizedHttpUrl} {method : HttpMethod} {redirectDepth : Nat}
    {addresses : List ResolvedHttpAddress} {canonicalHostname : Option Text}
    {phase : NetworkPolicyPhase} {context : NetworkOperationContext} {facts : NetworkPolicyRequest}
    (hurl : Normalized url) (hcanonical : CanonicalName canonicalHostname)
    (h : Gateway.policyFacts url method redirectDepth addresses canonicalHostname phase context =
      .ok facts) :
    facts = factsOf context method url redirectDepth phase addresses canonicalHostname := by
  obtain ⟨copy, hcopy, h⟩ := Except.bind_eq_ok_iff.mp h
  obtain ⟨hostname, hhostname, h⟩ := Except.bind_eq_ok_iff.mp h
  obtain ⟨_, _, h⟩ := Except.bind_eq_ok_iff.mp h
  obtain ⟨canonical, hname, h⟩ := Except.bind_eq_ok_iff.mp h
  obtain ⟨_, _, h⟩ := Except.bind_eq_ok_iff.mp h
  obtain ⟨_, _, h⟩ := Except.bind_eq_ok_iff.mp h
  obtain ⟨raw, hraw⟩ := hurl.hostname
  rw [← Except.ok.inj h, normalizeHostname_idem hraw hhostname, hcanonical.normalize hname,
    copyResolvedAddresses_eq_ok hcopy]
  rfl

theorem NetworkResolution.new_eq_ok {hostname : Text} {addresses : List ResolvedHttpAddress}
    {canonicalHostname : Option Text} {resolution : NetworkResolution}
    (h : NetworkResolution.new hostname addresses canonicalHostname = .ok resolution) :
    resolution.addresses = addresses.eraseDups ∧
      normalizeCanonical canonicalHostname = .ok resolution.canonicalHostname := by
  obtain ⟨_, _, h⟩ := Except.bind_eq_ok_iff.mp h
  obtain ⟨_, hname, h⟩ := Except.bind_eq_ok_iff.mp h
  obtain rfl := Except.ok.inj h
  exact ⟨rfl, hname⟩

theorem validatedResolution_eq_some {reply : Option ResolutionReply} {hostname : Text}
    {resolution : NetworkResolution} (h : validatedResolution reply hostname = some resolution) :
    CanonicalName resolution.canonicalHostname := by
  unfold validatedResolution at h
  simp only [bind, Option.bind_eq_some_iff] at h
  obtain ⟨_, _, _, _, _, _, canonical, _, _, _, validated, hvalidated, h⟩ := h
  split at h
  · obtain rfl := Option.some.inj h
    cases hnew : NetworkResolution.new _ _ canonical with
    | error e =>
      rw [hnew] at hvalidated
      exact nomatch hvalidated
    | ok a =>
      rw [hnew] at hvalidated
      obtain rfl := Option.some.inj hvalidated
      exact ⟨canonical, (NetworkResolution.new_eq_ok hnew).2⟩
  · exact nomatch h

omit [NetworkLibrary] in
theorem validatedPolicyDecision_allow {reply : Option PolicyReply} {decision : NetworkPolicyDecision}
    (h : validatedPolicyDecision reply = some decision) (hallow : decision.outcome = .allow) :
    reply = some ⟨some .allow, some .allowed⟩ := by
  match reply with
  | some ⟨some outcome, some reason⟩ =>
    simp only [validatedPolicyDecision] at h
    cases hnew : NetworkPolicyDecision.new outcome reason with
    | error e =>
      rw [hnew] at h
      exact nomatch h
    | ok d =>
      rw [hnew] at h
      obtain rfl := Option.some.inj h
      unfold NetworkPolicyDecision.new at hnew
      split at hnew
      · rename_i hconsistent
        obtain rfl := Except.ok.inj hnew
        obtain rfl : outcome = .allow := hallow
        rw [hconsistent.mp rfl]
      · split at hnew <;> exact nomatch hnew

/-! ## Section 4: The admission sequence -/

namespace Gateway

variable {P : List GatewayEvent → GatewayEvent → Prop} {history : List GatewayEvent}
  {context : NetworkOperationContext} {url : NormalizedHttpUrl}

/-- The policy lets the gateway go on only where it has allowed these facts. -/
theorem Meets.requirePolicy {method : HttpMethod} {redirectDepth : Nat}
    {addresses : List ResolvedHttpAddress} {canonicalHostname : Option Text}
    {phase : NetworkPolicyPhase} {Q : Unit → List GatewayEvent → Prop} (hidle : Idle P)
    (hurl : Normalized url) (hcanonical : CanonicalName canonicalHostname)
    (h : Q () (history ++ [GatewayEvent.evaluated
      (factsOf context method url redirectDepth phase addresses canonicalHostname) allowed])) :
    Meets P (requirePolicy url method redirectDepth addresses canonicalHostname phase context)
      history Q := by
  apply Meets.bind (Meets.check hidle (Q := fun facts h => h = history ∧
    facts = factsOf context method url redirectDepth phase addresses canonicalHostname)
    fun _ hfacts => ⟨rfl, policyFacts_eq_ok hurl hcanonical hfacts⟩)
  intro facts h₁ hh₁
  obtain ⟨rfl, hfacts⟩ := hh₁
  rw [← hfacts] at h
  apply Meets.bind (Meets.returned hidle (Meets.awaitReply hidle (hidle.evaluated · facts)))
  intro decision h₂ hh₂
  match decision with
  | .failed => exact Meets.fail hidle
  | .stable cls => split <;> first | exact Meets.fail hidle | contradiction
  | .returned reply =>
    obtain rfl := hh₂ reply rfl
    dsimp only
    split
    · exact Meets.fail hidle
    · rename_i decision hvalidated
      apply Meets.bind (Meets.check hidle (Q := fun _ h => decision.outcome = .allow ∧
        h = h₁ ++ [GatewayEvent.evaluated facts (.returned reply)])
        fun _ hc => ⟨require_eq_ok.mp hc, rfl⟩)
      intro _ h₃ hh₃
      obtain ⟨hallow, rfl⟩ := hh₃
      rw [validatedPolicyDecision_allow hvalidated hallow]
      exact Meets.requireActive hidle h

theorem Meets.resolveName {Q : NetworkResolution → List GatewayEvent → Prop} (hidle : Idle P)
    (h : ∀ reply resolution, validatedResolution reply url.hostname = some resolution →
      Q resolution (history ++ [GatewayEvent.resolved url.hostname url.port (.returned reply)])) :
    Meets P (resolveName url context) history Q := by
  apply Meets.bind (Meets.returned hidle (Meets.awaitReply hidle (hidle.resolved · url.hostname url.port)))
  intro resolution h₁ hh₁
  match resolution with
  | .failed => exact Meets.fail hidle
  | .stable cls => split <;> first | exact Meets.fail hidle | contradiction
  | .returned reply =>
    obtain rfl := hh₁ reply rfl
    dsimp only
    split
    · exact Meets.fail hidle
    · rename_i resolution hvalidated
      apply Meets.bind (Meets.requireActive hidle (Q := fun _ h => h = _) rfl)
      intro _ h₂ hh₂
      subst hh₂
      exact Meets.pure (h reply resolution hvalidated)

/-- A resolution leaves its evidence in the history. -/
theorem Meets.resolve {Q : NetworkResolution → List GatewayEvent → Prop} (hidle : Idle P)
    (h : ∀ lookup resolution, Resolution url lookup resolution.addresses resolution.canonicalHostname →
      CanonicalName resolution.canonicalHostname → Q resolution (history ++ lookup)) :
    Meets P (resolve url context) history Q := by
  unfold Gateway.resolve
  split
  · rename_i literal hliteral
    apply Meets.check hidle
    intro resolution hresolution
    obtain ⟨haddresses, hname⟩ := NetworkResolution.new_eq_ok hresolution
    have hlookup : Resolution url [] resolution.addresses resolution.canonicalHostname := by
      rw [haddresses, ← Except.ok.inj hname]
      exact .literal hliteral
    have hpost := h [] resolution hlookup ⟨none, hname⟩
    rw [List.append_nil] at hpost
    exact hpost
  · rename_i hname
    apply Meets.resolveName hidle
    intro reply resolution hvalidated
    exact h _ resolution (.name hname hvalidated) (validatedResolution_eq_some hvalidated)

variable {request : OutboundHttpRequest} {attempts : Attempts}

/-- What has been asked and answered when an address may be dialled. -/
theorem Meets.requireAdmission {Q : ResolvedHttpAddress → List GatewayEvent → Prop} (hidle : Idle P)
    (hurl : Normalized attempts.current)
    (h : ∀ address admission, attempts.requestCount < request.limits.maxRequests →
      attempts.current.scheme ∈ context.grant.schemes →
      Admission context request.method attempts.current address attempts.redirectCount admission →
      Q address (history ++ admission)) :
    Meets P (requireAdmission request context attempts) history Q := by
  apply Meets.bind (Meets.requireActive hidle (Q := fun _ h => h = history) rfl)
  intro _ h₁ hh₁
  subst hh₁
  apply Meets.bind (Meets.check hidle (Q := fun _ h => h = h₁ ∧
    attempts.requestCount < request.limits.maxRequests) fun _ hc => ⟨rfl, require_eq_ok.mp hc⟩)
  intro _ h₂ hh₂
  obtain ⟨rfl, hcount⟩ := hh₂
  apply Meets.bind (Meets.check hidle (Q := fun _ h => h = h₂ ∧
    attempts.current.scheme ∈ context.grant.schemes) fun _ hc => ⟨rfl, require_eq_ok.mp hc⟩)
  intro _ h₃ hh₃
  obtain ⟨rfl, hscheme⟩ := hh₃
  apply Meets.bind (Meets.requirePolicy hidle hurl canonicalName_none (Q := fun _ h => h = _) rfl)
  intro _ h₄ hh₄
  subst hh₄
  apply Meets.bind (Meets.requireActive hidle (Q := fun _ h => h = _) rfl)
  intro _ h₅ hh₅
  subst hh₅
  apply Meets.bind (Meets.resolve hidle (Q := fun resolution h => ∃ lookup,
    Resolution attempts.current lookup resolution.addresses resolution.canonicalHostname ∧
    CanonicalName resolution.canonicalHostname ∧ h = _ ++ lookup)
    fun lookup _ hresolution hname => ⟨lookup, hresolution, hname, rfl⟩)
  intro resolution h₆ hh₆
  obtain ⟨lookup, hresolution, hname, rfl⟩ := hh₆
  apply Meets.bind (Meets.requireActive hidle (Q := fun _ h => h = _) rfl)
  intro _ h₇ hh₇
  subst hh₇
  split
  · exact Meets.fail hidle
  · rename_i address rest haddresses
    apply Meets.bind (Meets.check hidle (Q := fun _ h => h = _ ∧
      ∀ address ∈ resolution.addresses, address.classification = .global)
      fun _ hc => ⟨rfl, by simpa using require_eq_ok.mp hc⟩)
    intro _ h₈ hh₈
    obtain ⟨rfl, hglobal⟩ := hh₈
    apply Meets.bind (Meets.requirePolicy hidle hurl hname (Q := fun _ h => h = _) rfl)
    intro _ h₉ hh₉
    subst hh₉
    apply Meets.bind (Meets.requireActive hidle (Q := fun _ h => h = _) rfl)
    intro _ h₁₀ hh₁₀
    subst hh₁₀
    apply Meets.pure
    have hdialled : resolution.addresses.head? = some address := by
      rw [haddresses]
      rfl
    have hpost := h address _ hcount hscheme (.mk hresolution hglobal hdialled)
    simpa [List.append_assoc] using hpost

/-- A transport request is sent once, and a value is a response of it. -/
theorem Meets.sendAttempt {next : HttpTransportRequest} {Q : TransportReply → List GatewayEvent → Prop}
    (hidle : Idle P) (hsent : P history (.sent next))
    (h : ∀ response, Q response
      (history ++ [GatewayEvent.sent next, .answered (.returned (some response))])) :
    Meets P (sendAttempt next context) history Q := by
  have hbegun : ∀ events, (copyTransportRequest next).map (fun copy => [GatewayEvent.sent copy]) =
      .ok events → events = [.sent next] := by
    intro events hevents
    cases hcopy : copyTransportRequest next with
    | error e =>
      rw [hcopy] at hevents
      exact nomatch hevents
    | ok copy =>
      rw [hcopy] at hevents
      rw [← Except.ok.inj hevents, copyTransportRequest_eq_ok hcopy]
  have hcall : Meets P (Gateway.awaitCollaborator
      ((copyTransportRequest next).map fun copy => [GatewayEvent.sent copy]) .answered context) history
      fun reply h =>
        h = history ++ [GatewayEvent.sent next, .answered (.returned reply)] := by
    apply Meets.awaitCollaborator hidle hidle.answered
    · intro events hevents hjustified
      rw [hbegun events hevents]
      exact justified_concat.mpr ⟨hjustified, hsent⟩
    · intro events reply hevents
      rw [hbegun events hevents, List.append_assoc]
      rfl
  apply Meets.bind (Meets.returned hidle hcall)
  intro response h₁ hh₁
  match response with
  | .failed => exact Meets.fail hidle
  | .stable cls => split <;> first | exact Meets.fail hidle | contradiction
  | .returned none => exact Meets.fail hidle
  | .returned (some response) =>
    obtain rfl := hh₁ _ rfl
    apply Meets.bind (Meets.requireActive hidle (Q := fun _ h => h = _) rfl)
    intro _ h₂ hh₂
    subst hh₂
    exact Meets.pure (h response)

end Gateway
end Library
