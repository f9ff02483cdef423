import MemSandbox.Network.UrlNormalization
import MemSandbox.Network.ChunkedBody

/-! # Requests on the wire

    `_encode_request` of `network/transport.py`, and that its bytes come apart
    at the line ends, the spaces and the first colons into the parts of the
    request.  That no part contains a separator follows from the URL, the
    headers and the gateway's checks together, in every run of `send`. -/

open Python

/-! ## Section 1: Encoding -/

/-- `text.encode("ascii")`; `none` stands for `UnicodeEncodeError`. -/
def encodeAscii (t : Text) : Option Bytes :=
  if isAscii t then some (t.map fun c => Fin.ofNat 256 c.val) else none

/-- The bytes of a header, without its line end. -/
def encodeHeader (header : HttpHeader) : Option Bytes := do
  let name ← encodeAscii header.name
  let value ← encodeUtf8 header.value
  some (name ++ ascii ": " ++ value)

/-- `_encode_request`; `none` stands for `UnicodeEncodeError`. -/
def encodeRequest (request : HttpTransportRequest) : Option Bytes := do
  let start ← encodeAscii
    (request.method.value ++ py " " ++ request.destination.url.target ++ py " HTTP/1.1\r\n")
  let headers ← request.headers.mapM encodeHeader
  some (start ++ headers.flatMap (· ++ crlf) ++ crlf)

theorem encodeAscii_eq_some {t : Text} {b : Bytes} :
    encodeAscii t = some b ↔ isAscii t = true ∧ b = t.map fun c => Fin.ofNat 256 c.val := by
  unfold encodeAscii
  by_cases h : isAscii t = true
  · rw [if_pos h]
    constructor
    · exact fun hb => ⟨h, (Option.some.inj hb).symm⟩
    · rintro ⟨-, rfl⟩
      rfl
  · rw [if_neg h]
    constructor
    · intro hb
      cases hb
    · exact fun hb => absurd hb.1 h

theorem encodeAscii_append {s t : Text} {bs bt : Bytes} (hs : encodeAscii s = some bs)
    (ht : encodeAscii t = some bt) : encodeAscii (s ++ t) = some (bs ++ bt) := by
  rw [encodeAscii_eq_some] at hs ht ⊢
  refine ⟨?_, by rw [hs.2, ht.2, List.map_append]⟩
  rw [isAscii, List.all_append]
  exact Bool.and_eq_true_iff.mpr ⟨hs.1, ht.1⟩

/-- Every byte of an ASCII text is one of its characters. -/
theorem mem_encodeAscii {t : Text} {b : Bytes} (h : encodeAscii t = some b) {x : Byte} (hx : x ∈ b) :
    ∃ c ∈ t, c.val = x.val := by
  obtain ⟨hascii, rfl⟩ := encodeAscii_eq_some.mp h
  obtain ⟨c, hc, rfl⟩ := List.mem_map.mp hx
  rw [isAscii, List.all_eq_true] at hascii
  have hlow := of_decide_eq_true (hascii c hc)
  exact ⟨c, hc, (Nat.mod_eq_of_lt (by omega)).symm⟩

/-- A byte of a UTF-8 text is beyond ASCII, or one of its characters. -/
theorem mem_encodeUtf8 {t : Text} {b : Bytes} (h : encodeUtf8 t = some b) {x : Byte} (hx : x ∈ b) :
    128 ≤ x.val ∨ ∃ c ∈ t, c.val = x.val := by
  induction t generalizing b with
  | nil =>
    cases h
    cases hx
  | cons c t ih =>
    obtain ⟨head, tail, hhead, htail, rfl⟩ := encodeUtf8_cons_eq_some.mp h
    rcases List.mem_append.mp hx with hx | hx
    · by_cases hascii : c.val < 128
      · rw [encodeCodePoint_ascii hascii] at hhead
        cases hhead
        rw [List.mem_singleton.mp hx]
        exact .inr ⟨c, List.mem_cons_self, rfl⟩
      · exact .inl (encodeCodePoint_beyond (Nat.le_of_not_lt hascii) hhead x hx)
    · rcases ih htail hx with h | ⟨d, hd, hval⟩
      · exact .inl h
      · exact .inr ⟨d, List.mem_cons_of_mem _ hd, hval⟩

/-! ## Section 2: One header -/

def space : Byte := 32

/-- A line of a request that gives a header back: split at the first colon and
    stripped of blanks it is the name and the value, less the blanks around it. -/
structure Carries (line : Bytes) (header : HttpHeader) : Prop where
  splits : ∃ name value rest, encodeAscii header.name = some name ∧
    encodeUtf8 header.value = some value ∧ partition (ascii ":") line = some (name, rest) ∧
    stripEnds isBlank name = name ∧ stripEnds isBlank rest = stripEnds isBlank value
  no_cr : cr ∉ line

theorem isAscii_headerName (header : HttpHeader) : isAscii header.name = true := by
  rw [isAscii, List.all_eq_true]
  intro c hc
  have := isTokenCharacter_val (header.name_character hc)
  exact decide_eq_true (by omega)

theorem encodeHeader_carries (header : HttpHeader) :
    ∃ line, encodeHeader header = some line ∧ Carries line header := by
  obtain ⟨value, hvalue⟩ := Option.isSome_iff_exists.mp header.utf8
  have hname : encodeAscii header.name = some (header.name.map fun c => Fin.ofNat 256 c.val) :=
    encodeAscii_eq_some.mpr ⟨isAscii_headerName header, rfl⟩
  generalize header.name.map (fun c => Fin.ofNat 256 c.val) = name at hname
  have hcharacter : ∀ b ∈ name, 0x21 ≤ b.val ∧ b.val < 0x7F ∧ b.val ≠ 0x3A := by
    intro b hb
    obtain ⟨c, hc, hval⟩ := mem_encodeAscii hname hb
    rw [← hval]
    exact isTokenCharacter_val (header.name_character hc)
  have hnotBlank : ∀ b ∈ name, isBlank b = false := by
    intro b hb
    have := hcharacter b hb
    simp only [isBlank, Bool.or_eq_false_iff, decide_eq_false_iff_not]
    omega
  have hline : name ++ ascii ": " ++ value = name ++ (ascii ":" ++ (space :: value)) :=
    List.append_assoc name _ value
  have hcolon : (58 : Byte) ∉ name := fun h => (hcharacter _ h).2.2 rfl
  have hsplit : partition (ascii ":") (name ++ (ascii ":" ++ (space :: value))) =
      some (name, space :: value) := partition_of_not_mem hcolon _
  refine ⟨name ++ ascii ": " ++ value, ?_, ⟨name, value, space :: value, hname, hvalue, ?_, ?_, ?_⟩, ?_⟩
  · unfold encodeHeader
    rw [hname, hvalue]
    rfl
  · rw [hline, hsplit]
  · refine stripEnds_eq_iff.mpr ⟨⟨?_, ?_⟩, [], [], by simp, List.forall_mem_nil _,
      List.forall_mem_nil _⟩
    · exact fun b hb => hnotBlank b (List.mem_of_head? hb)
    · exact fun b hb => hnotBlank b (List.mem_of_getLast? hb)
  · -- the space behind the colon is one of the blanks
    unfold stripEnds
    rw [List.dropWhile_cons, if_pos (show isBlank space = true from rfl)]
  · have hseparator : cr ∉ ascii ": " := by decide
    rw [List.mem_append, List.mem_append, not_or, not_or]
    refine ⟨⟨fun h => ?_, hseparator⟩, fun h => ?_⟩
    · exact absurd (hcharacter _ h).1 (by decide)
    · rcases mem_encodeUtf8 hvalue h with hlow | ⟨c, hc, hval⟩
      · exact absurd hlow (by decide)
      · have hcontrol := header.value_character hc
        simp only [isControlCharacter, hval] at hcontrol
        revert hcontrol
        decide

theorem mapM_encodeHeader (headers : List HttpHeader) :
    ∃ lines, headers.mapM encodeHeader = some lines ∧ List.Forall₂ Carries lines headers := by
  induction headers with
  | nil => exact ⟨[], rfl, .nil⟩
  | cons header headers ih =>
    obtain ⟨lines, hlines, hcarries⟩ := ih
    obtain ⟨line, hline, hcarry⟩ := encodeHeader_carries header
    refine ⟨line :: lines, ?_, .cons hcarry hcarries⟩
    rw [List.mapM_cons, hline, hlines]
    rfl

theorem no_cr_of_carries {lines : List Bytes} {headers : List HttpHeader}
    (h : List.Forall₂ Carries lines headers) : ∀ line ∈ lines, cr ∉ line := by
  induction h with
  | nil => exact List.forall_mem_nil _
  | cons hcarry _ ih => exact List.forall_mem_cons.mpr ⟨hcarry.no_cr, ih⟩

/-! ## Section 3: One request -/

/-- A target without anything that ends it. -/
def SafeTarget (target : Text) : Prop := ∀ c ∈ target, IsUrlCharacter c

/-- The bytes of a request, cut at its line ends, and its first line, cut at its spaces. -/
structure Unsplit (request : HttpTransportRequest) : Prop where
  splits : ∃ bytes first method target lines, encodeRequest request = some bytes ∧
    encodeAscii request.method.value = some method ∧
    encodeAscii request.destination.url.target = some target ∧
    splitAll cr [10] bytes = first :: lines ++ [[], []] ∧
    splitAll space [] first = [method, target, ascii "HTTP/1.1"] ∧
    List.Forall₂ Carries lines request.headers

theorem method_character (method : HttpMethod) : ∀ c ∈ method.value, 0x21 ≤ c.val ∧ c.val < 0x7F := by
  have htable : method.value.all (fun c => decide (0x21 ≤ c.val ∧ c.val < 0x7F)) = true := by
    cases method with
    | get => decide
    | head => decide
  exact fun c hc => of_decide_eq_true (List.all_eq_true.mp htable c hc)

/-- A request to a safe target cannot be split elsewhere. -/
theorem unsplit_of_safeTarget {request : HttpTransportRequest}
    (h : SafeTarget request.destination.url.target) : Unsplit request := by
  have hmethodAscii : isAscii request.method.value = true := by
    rw [isAscii, List.all_eq_true]
    intro c hc
    have := method_character _ c hc
    exact decide_eq_true (by omega)
  have htargetAscii : isAscii request.destination.url.target = true := by
    rw [isAscii, List.all_eq_true]
    intro c hc
    have := (h c hc).2.1
    exact decide_eq_true (by omega)
  obtain ⟨method, hmethod⟩ : ∃ method, encodeAscii request.method.value = some method :=
    ⟨_, encodeAscii_eq_some.mpr ⟨hmethodAscii, rfl⟩⟩
  obtain ⟨target, htarget⟩ : ∃ target, encodeAscii request.destination.url.target = some target :=
    ⟨_, encodeAscii_eq_some.mpr ⟨htargetAscii, rfl⟩⟩
  obtain ⟨lines, hlines, hcarries⟩ := mapM_encodeHeader request.headers
  have hmethodByte : ∀ b ∈ method, 0x21 ≤ b.val := by
    intro b hb
    obtain ⟨c, hc, hval⟩ := mem_encodeAscii hmethod hb
    rw [← hval]
    exact (method_character _ c hc).1
  have htargetByte : ∀ b ∈ target, 0x21 ≤ b.val := by
    intro b hb
    obtain ⟨c, hc, hval⟩ := mem_encodeAscii htarget hb
    rw [← hval]
    exact (h c hc).1
  have hstart : encodeAscii (request.method.value ++ py " " ++ request.destination.url.target ++
      py " HTTP/1.1\r\n") = some (method ++ ascii " " ++ target ++ ascii " HTTP/1.1\r\n") :=
    encodeAscii_append (encodeAscii_append (encodeAscii_append hmethod rfl) htarget) rfl
  let first := method ++ ([space] ++ (target ++ ([space] ++ ascii "HTTP/1.1")))
  have hfirst : method ++ ascii " " ++ target ++ ascii " HTTP/1.1\r\n" = first ++ crlf := by
    simp only [first, List.append_assoc]
    rfl
  have hbytes : encodeRequest request =
      some ((first :: lines ++ [[]]).flatMap (· ++ cr :: [10])) := by
    unfold encodeRequest
    rw [hstart, hlines]
    show some (_ ++ lines.flatMap (· ++ crlf) ++ crlf) = _
    rw [hfirst, List.cons_append, List.flatMap_cons, List.flatMap_append, List.append_assoc]
    rfl
  have hcr : ∀ line ∈ first :: lines ++ [[]], cr ∉ line := by
    intro line hline
    rcases List.mem_append.mp hline with hline | hline
    · rcases List.mem_cons.mp hline with rfl | hline
      · have hversion : cr ∉ [space] ++ ascii "HTTP/1.1" := by decide
        have hspace : cr ∉ [space] := by decide
        simp only [first, List.mem_append, not_or] at hversion ⊢
        refine ⟨fun hm => ?_, hspace, fun ht => ?_, hversion⟩
        · exact absurd (hmethodByte _ hm) (by decide)
        · exact absurd (htargetByte _ ht) (by decide)
      · exact no_cr_of_carries hcarries line hline
    · rw [List.mem_singleton.mp hline]
      exact List.not_mem_nil
  have hmethodSpace : space ∉ method := fun hm => absurd (hmethodByte _ hm) (by decide)
  have htargetSpace : space ∉ target := fun ht => absurd (htargetByte _ ht) (by decide)
  refine ⟨_, first, method, target, lines, hbytes, hmethod, htarget, ?_, ?_, hcarries⟩
  · rw [splitAll_lines hcr, List.append_assoc]
    rfl
  · show splitAll space [] (method ++ (space :: [] ++ (target ++ (space :: [] ++ _)))) = _
    rw [splitAll_append hmethodSpace, splitAll_append htargetSpace,
      splitAll_of_not_mem (by decide)]

/-! ## Section 4: Runs -/

section Runs

variable [NetworkLibrary] [ZlibLibrary]

/-- The headers of one name, in any case. -/
def named (name : Text) (headers : List HttpHeader) : List HttpHeader :=
  headers.filter fun header => lower header.name = name

/-- What `_transport_headers` has made of the headers of a request. -/
structure Composed (request : OutboundHttpRequest) (next : HttpTransportRequest) : Prop where
  method : next.method = request.method
  normalized : Normalized next.destination.url
  headers : transportHeaders next.destination.url request.headers = .ok next.headers
  supported : requireSupportedRequest request = .ok ()

/-- What justifies an entry here: a transport request is composed. -/
def ComposedEntry (request : OutboundHttpRequest) (_ : List GatewayEvent) : GatewayEvent → Prop
  | .sent next => Composed request next
  | _ => True

omit [ZlibLibrary] in
theorem idle_composed {request : OutboundHttpRequest} : Gateway.Idle (ComposedEntry request) where
  evaluated _ _ _ := trivial
  resolved _ _ _ _ := trivial
  answered _ _ := trivial
  failed _ _ := trivial

namespace Gateway

variable {request : OutboundHttpRequest} {context : NetworkOperationContext}
  {history : List GatewayEvent} {attempts : Attempts}

omit [ZlibLibrary] in
theorem composed_of_nextAttempt {address : ResolvedHttpAddress} {next : HttpTransportRequest}
    (hurl : Normalized attempts.current) (hsupported : requireSupportedRequest request = .ok ())
    (h : nextAttempt request attempts address = .ok next) : Composed request next := by
  obtain ⟨_, _, h⟩ := Except.bind_eq_ok_iff.mp h
  obtain ⟨_, _, h⟩ := Except.bind_eq_ok_iff.mp h
  obtain ⟨headers, hheaders, h⟩ := Except.bind_eq_ok_iff.mp h
  obtain ⟨_, _, h⟩ := Except.bind_eq_ok_iff.mp h
  cases h
  exact ⟨rfl, hurl, hheaders, hsupported⟩

/-- Nothing is sent while a response is published. -/
theorem Meets.publish_composed {started : ℚ} {response : HttpTransportResponse} :
    Meets (ComposedEntry request) (Gateway.publish request context started attempts response) history
      fun _ _ => True := by
  apply Meets.bind (Meets.check idle_composed (Q := fun _ _ => True) fun _ _ => trivial)
  intro published h₁ _
  apply Meets.bind (Meets.requireActive idle_composed (Q := fun _ _ => True) trivial)
  intro _ h₂ _
  apply Meets.bind (Meets.time (Q := fun _ _ => True) fun _ => trivial)
  intro now h₃ _
  apply Meets.bind (Meets.check idle_composed (Q := fun _ _ => True) fun _ _ => trivial)
  intro usage h₄ _
  apply Meets.bind (Meets.check idle_composed (Q := fun _ _ => True) fun _ _ => trivial)
  intro built h₅ _
  apply Meets.bind (Meets.record (Q := fun _ _ => True)
    (show ComposedEntry request h₅ (.built built) from trivial) trivial)
  intro _ h₆ _
  apply Meets.bind (Meets.check idle_composed (Q := fun _ _ => True) fun _ _ => trivial)
  intro _ h₇ _
  exact Meets.pure trivial

/-- The loop keeps its URL normalised, and sends only composed requests. -/
theorem Meets.attempt_composed {started : ℚ} (hurl : Normalized attempts.current)
    (hsupported : requireSupportedRequest request = .ok ()) :
    Meets (ComposedEntry request) (Gateway.attempt request context started attempts) history
      (Sum.elim (fun attempts _ => Normalized (Attempts.current attempts)) fun _ _ => True) := by
  apply Meets.bind (Meets.requireAdmission idle_composed hurl (Q := fun _ _ => True)
    fun _ _ _ _ _ => trivial)
  intro address h₁ _
  apply Meets.bind (Meets.check idle_composed (Q := fun next _ =>
    nextAttempt request attempts address = .ok next) fun _ hn => hn)
  intro next h₂ hnext
  apply Meets.bind (Meets.sendAttempt idle_composed
    (show ComposedEntry request h₂ (.sent next) from composed_of_nextAttempt hurl hsupported hnext)
    (Q := fun _ _ => True) fun _ => trivial)
  intro reply h₃ _
  apply Meets.bind (Meets.requireActive idle_composed (Q := fun _ _ => True) trivial)
  intro _ h₄ _
  apply Meets.bind (Meets.check idle_composed (Q := fun _ _ => True) fun _ _ => trivial)
  intro response h₅ _
  apply Meets.bind (Meets.check idle_composed (Q := fun _ _ => True) fun _ _ => trivial)
  intro _ h₆ _
  apply Meets.bind (Meets.record (Q := fun _ _ => True)
    (show ComposedEntry request h₆ (.accepted response) from trivial) trivial)
  intro _ h₇ _
  apply Meets.bind (Meets.check idle_composed (Q := fun _ _ => True) fun _ _ => trivial)
  intro location h₈ _
  split
  · apply Meets.bind (Meets.check idle_composed (Q := fun _ _ => True) fun _ _ => trivial)
    intro _ h₉ _
    apply Meets.bind (Meets.check idle_composed (Q := fun url _ => Normalized url)
      fun _ hu => normalizeRedirect_normalized hu)
    intro url h₁₀ hnormalized
    apply Meets.bind (Meets.record (Q := fun _ _ => True)
      (show ComposedEntry request h₁₀ (.followed url) from trivial) trivial)
    intro _ h₁₁ _
    exact Meets.pure hnormalized
  · apply Meets.bind Meets.publish_composed
    intro _ _ _
    exact Meets.pure trivial

theorem Meets.send_composed :
    Meets (ComposedEntry request) (Gateway.send request context) [] fun _ _ => True := by
  apply Meets.bind (Meets.check idle_composed (Q := fun _ _ => True) fun _ _ => trivial)
  intro _ h₁ _
  apply Meets.bind (Meets.check idle_composed
    (Q := fun _ _ => requireSupportedRequest request = .ok ()) fun _ hs => hs)
  intro _ h₂ hsupported
  apply Meets.bind (Meets.requireActive idle_composed (Q := fun _ _ => True) trivial)
  intro _ h₃ _
  apply Meets.bind (Meets.time (Q := fun _ _ => True) fun _ => trivial)
  intro now h₄ _
  apply Meets.bind (Meets.check idle_composed (Q := fun _ _ => True) fun _ _ => trivial)
  intro positive h₅ _
  apply Meets.bind (Meets.requireActive idle_composed (Q := fun _ _ => True) trivial)
  intro _ h₆ _
  apply Meets.bind (Meets.time (Q := fun _ _ => True) fun _ => trivial)
  intro started h₇ _
  apply Meets.bind (Meets.check idle_composed (Q := fun url _ => Normalized url)
    fun _ hu => ⟨_, hu⟩)
  intro url h₈ hurl
  apply Meets.loop (fun attempts _ => Normalized (Attempts.current attempts)) hurl
  intro attempts h₉ hcurrent
  exact Meets.attempt_composed hcurrent hsupported

end Gateway

/-! ## Section 5: What is sent -/

omit [ZlibLibrary] in
theorem Normalized.safeTarget (specified : SpecifiedQuote) {url : NormalizedHttpUrl}
    (h : Normalized url) : SafeTarget url.target := by
  obtain ⟨text, htext⟩ := h
  obtain ⟨path, query, haccepted⟩ := normalizeHttpUrl_accepted specified htext
  unfold SafeTarget
  rw [haccepted.target]
  exact haccepted.parts.target_character

omit [ZlibLibrary] in
/-- The gateway refuses a request with a header that it sets itself. -/
theorem named_of_supported {request : OutboundHttpRequest}
    (h : requireSupportedRequest request = .ok ()) {name : Text}
    (hname : name ∈ CONTROLLED_REQUEST_HEADERS) : named name request.headers = [] := by
  obtain ⟨_, _, h⟩ := Except.bind_eq_ok_iff.mp h
  obtain ⟨seen, hfold, -⟩ := Except.bind_eq_ok_iff.mp h
  apply List.filter_eq_nil_iff.mpr
  -- each round of the loop refuses a controlled name
  generalize ([] : List Text) = start at hfold
  generalize request.headers = headers at hfold ⊢
  induction headers generalizing start with
  | nil => exact List.forall_mem_nil _
  | cons header headers ih =>
    rw [List.foldlM_cons] at hfold
    obtain ⟨seen', hstep, hrest⟩ := Except.bind_eq_ok_iff.mp hfold
    obtain ⟨_, _, hstep⟩ := Except.bind_eq_ok_iff.mp hstep
    obtain ⟨_, hallowed, _⟩ := Except.bind_eq_ok_iff.mp hstep
    rw [require_eq_ok, not_or] at hallowed
    refine List.forall_mem_cons.mpr ⟨?_, ih seen' hrest⟩
    intro heq
    rw [of_decide_eq_true heq] at hallowed
    exact hallowed.1 hname

omit [ZlibLibrary] in
theorem lower_of_ascii {t u : Text} (hascii : isAscii t = true) (h : t.map lowerAscii = u) :
    lower t = u := by
  unfold lower
  rw [if_pos hascii, h]

omit [ZlibLibrary] in
/-- The header that the gateway sets is the only one of its name. -/
theorem length_named {name : Text} {first second third : HttpHeader} {rest : List HttpHeader}
    (hrest : named name rest = [])
    (hthree : (named name [first, second, third]).length = 1) :
    (named name (first :: second :: third :: rest)).length = 1 := by
  have happend : first :: second :: third :: rest = [first, second, third] ++ rest := rfl
  unfold named at hrest hthree ⊢
  rw [happend, List.filter_append, hrest, List.append_nil, hthree]

/-- A request that comes apart into its parts, with one header of each name
    that the gateway sets. -/
structure SentExactly (request : OutboundHttpRequest) (next : HttpTransportRequest) : Prop where
  headers : transportHeaders next.destination.url request.headers = .ok next.headers
  unsplit : Unsplit next
  host : (named (py "host") next.headers).length = 1
  connection : (named (py "connection") next.headers).length = 1
  acceptEncoding : (named (py "accept-encoding") next.headers).length = 1

/-- Every request that any run of the gateway sends, to the first URL or to a
    redirect, comes apart exactly. -/
theorem sent_exactly (specified : SpecifiedQuote) {request : OutboundHttpRequest}
    {context : NetworkOperationContext} {c : Coroutine.Config Unit GatewayState Raised}
    (h : (Gateway.runs request context).Reachable c) :
    ∀ next, GatewayEvent.sent next ∈ c.shared.history → SentExactly request next := by
  intro next hsent
  obtain ⟨before, after, hsplit⟩ := List.append_of_mem hsent
  have hcomposed : Composed request next :=
    Gateway.justified_of_meets Gateway.Meets.send_composed h before _ after hsplit
  have hunsplit := unsplit_of_safeTarget (hcomposed.normalized.safeTarget specified)
  have hheaders := hcomposed.headers
  obtain ⟨host, hhost, hrest⟩ := Except.bind_eq_ok_iff.mp hheaders
  obtain ⟨connection, hconnection, hrest⟩ := Except.bind_eq_ok_iff.mp hrest
  obtain ⟨encoding, hencoding, hrest⟩ := Except.bind_eq_ok_iff.mp hrest
  have hnext := Except.ok.inj hrest
  have hhostName : lower host.name = py "host" := by
    rw [(HttpHeader.new_eq_ok hhost).1]
    exact lower_of_ascii (by decide) (by decide)
  have hconnectionName : lower connection.name = py "connection" := by
    rw [(HttpHeader.new_eq_ok hconnection).1]
    exact lower_of_ascii (by decide) (by decide)
  have hencodingName : lower encoding.name = py "accept-encoding" := by
    rw [(HttpHeader.new_eq_ok hencoding).1]
    exact lower_of_ascii (by decide) (by decide)
  have honce : ∀ name ∈ [py "host", py "connection", py "accept-encoding"],
      (named name [host, connection, encoding]).length = 1 := by
    intro name hname
    simp only [List.mem_cons, List.not_mem_nil, or_false] at hname
    unfold named
    simp only [List.filter_cons, List.filter_nil, hhostName, hconnectionName, hencodingName]
    rcases hname with rfl | rfl | rfl
    · rfl
    · rfl
    · rfl
  have hcontrolled : ∀ name ∈ [py "host", py "connection", py "accept-encoding"],
      (named name next.headers).length = 1 := by
    intro name hname
    rw [← hnext]
    refine length_named (named_of_supported hcomposed.supported ?_) (honce name hname)
    have hall : [py "host", py "connection", py "accept-encoding"].all
        (· ∈ CONTROLLED_REQUEST_HEADERS) = true := by decide
    exact of_decide_eq_true (List.all_eq_true.mp hall name hname)
  exact ⟨hheaders, hunsplit, hcontrolled _ (by decide), hcontrolled _ (by decide),
    hcontrolled _ (by decide)⟩

end Runs

/-- A run that sends one request, with the `quote` of `urllib.parse`. -/
theorem sent_exactly_literal : ∃ c next,
    (@Gateway.runs parsingLibrary Gateway.unusedZlib Gateway.literalRequest
      Gateway.literalContext).Reachable c ∧
    GatewayEvent.sent next ∈ c.shared.history ∧
    @SentExactly parsingLibrary Gateway.literalRequest next := by
  have hurl : @normalizeHttpUrl parsingLibrary Gateway.literalRequest.url =
      .ok Gateway.literalUrl := by decide +kernel
  obtain ⟨c, hc, hhistory⟩ := @Gateway.exists_sent Gateway.literalContext parsingLibrary
    Gateway.literalRequest Gateway.literalUrl Gateway.literalAddress _ Gateway.unusedZlib _ _ _
    rfl rfl rfl hurl (by decide) rfl rfl rfl rfl rfl rfl rfl
  have hsent : ∃ next, GatewayEvent.sent next ∈ c.shared.history := by
    rw [hhistory]
    exact ⟨_, List.mem_cons_of_mem _ (List.mem_cons_of_mem _ List.mem_cons_self)⟩
  obtain ⟨next, hsent⟩ := hsent
  exact ⟨c, next, hc, hsent, @sent_exactly parsingLibrary Gateway.unusedZlib
    (@SpecifiedLibrary.quote parsingLibrary parsingLibrary_specified) Gateway.literalRequest
    Gateway.literalContext c hc next hsent⟩
