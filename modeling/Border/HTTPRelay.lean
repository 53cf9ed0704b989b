/-
# What the HTTP balancer writes to its client

Model of one request to `serveHTTP` (`pkg/lb/http.go`): the headers that are sent on, the
request to the backend, and what is written to the `http.ResponseWriter` of the client.  What
`http.NewRequestWithContext` and the client say to a request is a parameter, and so are the
headers that the `net/http` server adds to a response by itself.

`serveHTTP_relays_iff` : the client gets the status, the end-to-end headers and the body of the
backend's response exactly when that is a response that `Relayable` describes.  No header of
the backend is ever copied, and a body is copied under the status 200 only.
-/
import Border.Balancer
import Border.GoMap
import Border.Literal

namespace Border

open GoMap

/-! ## Headers -/

/-- `http.Header`. -/
abbrev Header := Finmap (fun _ : String => List String)

/-- The characters of a token. -/
def isTokenChar (c : Char) : Bool := c.isAlphanum || c ∈ "!#$%&'*+-.^_`|~".toList

/-- A letter is upper case at the start and after a hyphen, and lower case elsewhere. -/
def canonicalChars : Bool → List Char → List Char
  | _, [] => []
  | upper, c :: cs =>
    let c' := if upper then c.toUpper else c.toLower
    c' :: canonicalChars (c' = '-') cs

/-- `http.CanonicalHeaderKey`. -/
def canonicalHeaderKey (key : String) : String :=
  if key.toList.all isTokenChar then String.ofList (canonicalChars true key.toList) else key

example : canonicalHeaderKey "x-forwarded-for" = "X-Forwarded-For" := by decide +kernel

/-- The headers that are about one connection only. -/
def hopByHop : List String :=
  ["Connection", "Proxy-Connection", "Keep-Alive", "Proxy-Authenticate", "Proxy-Authorization",
    "Te", "Trailer", "Transfer-Encoding", "Upgrade"]

/-- The text without the blanks around it. -/
def trimBlanks (text : String) : String :=
  let start := text.toList.dropWhile fun c => c = ' ' || c = '\t'
  String.ofList (start.reverse.dropWhile fun c => c = ' ' || c = '\t').reverse

/-- The headers that the `Connection` header names. -/
def connectionOptions (header : Header) : List String :=
  ((header.lookup "Connection").getD []).flatMap fun value =>
    (value.splitOn ",").map fun option => canonicalHeaderKey (trimBlanks option)

/-- A header that is meant for the other end. -/
def EndToEnd (header : Header) (key : String) : Prop :=
  canonicalHeaderKey key ∉ hopByHop ∧ canonicalHeaderKey key ∉ connectionOptions header

/-! ## The response writer -/

/-- `http.ResponseWriter`: the headers the handler has set, the status and the headers that were
sent, and the body. -/
structure ResponseWriter where
  header : Header
  sent : Option (ℕ × Header)
  body : List UInt8

/-- Nothing is written yet. -/
def ResponseWriter.new : ResponseWriter := ⟨∅, none, []⟩

/-- `WriteHeader`: the first status counts; an informational one is sent ahead of it. -/
def ResponseWriter.writeHeader (w : ResponseWriter) (code : ℕ) : Except Failure ResponseWriter :=
  if w.sent.isSome then .ok w
  else if code < 100 ∨ 999 < code then
    .error (.panic ("invalid WriteHeader code " ++ toString code))
  else if code < 200 ∧ code ≠ 101 then .ok w
  else .ok { w with sent := some (code, w.header) }

/-- `Write`: without a status before it, the status is 200. -/
def ResponseWriter.write (w : ResponseWriter) (data : List UInt8) : Except Failure ResponseWriter :=
  (w.writeHeader 200).map fun w => { w with body := w.body ++ data }

/-- `http.Error`. -/
def ResponseWriter.error (w : ResponseWriter) (msg : String) (code : ℕ) :
    Except Failure ResponseWriter := do
  let header := (w.header.insert "Content-Type" ["text/plain; charset=utf-8"]).insert
    "X-Content-Type-Options" ["nosniff"]
  let w ← ({ w with header := header } : ResponseWriter).writeHeader code
  w.write (textBytes (msg ++ "\n"))

/-- `io.Copy` of a body: an empty one is not written at all. -/
def ResponseWriter.copy (w : ResponseWriter) (data : List UInt8) : Except Failure ResponseWriter :=
  if data = [] then .ok w else w.write data

/-! ## Requests and responses -/

/-- The request of the client. -/
structure ClientRequest where
  method : String
  url : String
  header : Header
  body : List UInt8

/-- The request to the backend. -/
structure BackendRequest extends ClientRequest where
  host : String

/-- How reading a body can fail: the connection was closed, or something else. -/
inductive ReadError
  | closed
  | other (msg : String)

/-- The response of the backend: its status, its headers, the body as far as it can be read and
the error after that. -/
structure BackendResponse where
  statusCode : ℕ
  header : Header
  body : List UInt8
  readError : Option ReadError

/-- `http.Client`, with `http.NewRequestWithContext`. -/
structure HTTPClient where
  newRequest : BackendRequest → Except String Unit
  exchange : BackendRequest → Except String BackendResponse

/-- The value of an `X-Forwarded-For` header that is sent on; `none` if there are several. -/
def forwardedFor (listenerIP : String) : List String → Option (List String)
  | [] => some [listenerIP]
  | [value] => some [String.intercalate "," (value.splitOn "," ++ [listenerIP])]
  | _ => none

/-- The loop over the headers of the client's request. -/
def forwardHeaders (listenerIP : String) (header : Header) : List String → Header → Option Header
  | [], headers => some headers
  | key :: keys, headers =>
    match header.lookup key with
    | none => forwardHeaders listenerIP header keys headers
    | some values =>
      if canonicalHeaderKey key = canonicalHeaderKey "x-forwarded-for" then
        match forwardedFor listenerIP values with
        | none => none
        | some values => forwardHeaders listenerIP header keys (headers.insert key values)
      else forwardHeaders listenerIP header keys (headers.insert key values)

/-- What is written once the backend has responded. -/
def relay (w : ResponseWriter) (resp : BackendResponse) : Except Failure ResponseWriter :=
  if resp.statusCode ≠ 200 then w.writeHeader resp.statusCode
  else do
    let w ← w.copy resp.body
    match resp.readError with
    | some (.other e) => w.error ("Early close in body copy: " ++ e) 500
    | _ => .ok w

/-- The handler of `serveHTTP`.  `stopped` says whether the context of the balancer is done, and
`lowestAddr` is the address that the loop at `retry` ends with. -/
def serveHTTP (b : Balancer) (client : HTTPClient) (order : RangeOrder String (List String))
    (stopped : Bool) (lowestAddr : String) (r : ClientRequest) : Except Failure ResponseWriter :=
  match forwardHeaders b.listenerIP r.header (order.keys r.header) ∅ with
  | none =>
    ResponseWriter.new.error "Multiple X-Forwarded-For headers; failing this connection" 500
  | some headers =>
    if stopped then .ok .new
    else
      let req : BackendRequest := { r with header := headers, host := lowestAddr }
      match client.newRequest req with
      | .error e => ResponseWriter.new.error ("Proxy error: " ++ e) 500
      | .ok _ =>
        match client.exchange req with
        | .error e => ResponseWriter.new.error ("Proxy error: " ++ e) 500
        | .ok resp => relay .new resp

/-! ## What the client gets -/

/-- The response that the client gets. -/
structure ClientResponse where
  status : ℕ
  header : Header
  body : List UInt8

section Server

-- The headers that the server sends, given the method of the request and the status, the headers
-- and the body of the handler.
variable (complete : String → ℕ → Header → List UInt8 → Header)

/-- The end of a request in the `net/http` server: a handler that has sent no status has sent
200, and a `HEAD` request gets no body. -/
def ResponseWriter.finish (w : ResponseWriter) (method : String) : ClientResponse :=
  let sent := w.sent.getD (200, w.header)
  { status := sent.1
    header := complete method sent.1 sent.2 w.body
    body := if method = "HEAD" then [] else w.body }

/-- The client gets what the backend has sent: the status, every end-to-end header with its
values, and the whole body. -/
structure Relayed (resp : BackendResponse) (response : ClientResponse) : Prop where
  status : response.status = resp.statusCode
  header : ∀ key values, EndToEnd resp.header key → resp.header.lookup key = some values →
    response.header.lookup key = some values
  body : response.body = resp.body

/-- The body of a response that is copied. -/
def BackendResponse.copied (resp : BackendResponse) : List UInt8 :=
  if resp.statusCode = 200 then resp.body else []

/-- The status is a final one; there is no body, or the status is 200 and the request not a
`HEAD` one; and the server sends every end-to-end header of the backend's by itself. -/
structure Relayable (r : ClientRequest) (resp : BackendResponse) : Prop where
  status : resp.statusCode = 101 ∨ (200 ≤ resp.statusCode ∧ resp.statusCode ≤ 999)
  body : resp.body = [] ∨ (resp.statusCode = 200 ∧ r.method ≠ "HEAD")
  header : ∀ key values, EndToEnd resp.header key → resp.header.lookup key = some values →
    (complete r.method resp.statusCode ∅ resp.copied).lookup key = some values

variable {complete}

/-- What is relayed of a response that can be read to its end. -/
theorem relay_new {resp : BackendResponse} (hread : resp.readError = none) :
    (∃ w, relay .new resp = .ok w ∧
      (w.sent.getD (200, w.header)) = (resp.statusCode, ∅) ∧ w.body = resp.copied) ↔
    resp.statusCode = 101 ∨ (200 ≤ resp.statusCode ∧ resp.statusCode ≤ 999) := by
  unfold relay BackendResponse.copied
  by_cases hok : resp.statusCode = 200
  · rw [if_neg (not_not.mpr hok), hok, if_pos rfl, hread]
    refine ⟨fun _ => Or.inr ⟨by omega, by omega⟩, fun _ => ?_⟩
    by_cases hbody : resp.body = []
    · exact ⟨.new, by rw [ResponseWriter.copy, if_pos hbody]; rfl, rfl, hbody.symm⟩
    · refine ⟨⟨∅, some (200, ∅), resp.body⟩, ?_, rfl, rfl⟩
      rw [ResponseWriter.copy, if_neg hbody]
      rfl
  · rw [if_pos hok, if_neg hok]
    unfold ResponseWriter.writeHeader
    rw [if_neg (by simp [ResponseWriter.new])]
    by_cases hinvalid : resp.statusCode < 100 ∨ 999 < resp.statusCode
    · rw [if_pos hinvalid]
      constructor
      · rintro ⟨w, hw, -⟩
        exact absurd hw (by simp)
      · intro h
        omega
    · rw [if_neg hinvalid]
      by_cases hinfo : resp.statusCode < 200 ∧ resp.statusCode ≠ 101
      · rw [if_pos hinfo]
        constructor
        · rintro ⟨w, hw, hsent, -⟩
          obtain rfl := Except.ok.inj hw
          exact absurd (Prod.mk.inj hsent).1.symm hok
        · intro h
          omega
      · rw [if_neg hinfo]
        refine ⟨fun _ => ?_, fun _ => ⟨_, rfl, rfl, rfl⟩⟩
        omega

/-- A response of which a `HEAD` request or another status than 200 has lost nothing. -/
theorem copied_eq_body_iff {r : ClientRequest} {resp : BackendResponse} :
    (if r.method = "HEAD" then [] else resp.copied) = resp.body ↔
      resp.body = [] ∨ (resp.statusCode = 200 ∧ r.method ≠ "HEAD") := by
  unfold BackendResponse.copied
  by_cases hhead : r.method = "HEAD"
  · rw [if_pos hhead]
    constructor
    · exact fun h => Or.inl h.symm
    · rintro (h | ⟨-, h⟩)
      · exact h.symm
      · exact absurd hhead h
  · rw [if_neg hhead]
    by_cases hok : resp.statusCode = 200
    · rw [if_pos hok]
      exact ⟨fun _ => Or.inr ⟨hok, hhead⟩, fun _ => rfl⟩
    · rw [if_neg hok]
      constructor
      · exact fun h => Or.inl h.symm
      · rintro (h | ⟨h, -⟩)
        · exact h.symm
        · exact absurd h hok

/-- **When a response is relayed.**  Take a request of a client that is sent on to the chosen
backend, and any response of the backend that can be read to its end.  The client gets its
status, its end-to-end headers and its body exactly when the response is relayable. -/
theorem serveHTTP_relays_iff {b : Balancer} {client : HTTPClient}
    {order : RangeOrder String (List String)} {lowestAddr : String} {r : ClientRequest}
    {headers : Header} {resp : BackendResponse}
    (hheaders : forwardHeaders b.listenerIP r.header (order.keys r.header) ∅ = some headers)
    (hrequest : client.newRequest { r with header := headers, host := lowestAddr } = .ok ())
    (hresp : client.exchange { r with header := headers, host := lowestAddr } = .ok resp)
    (hread : resp.readError = none) :
    (∃ w, serveHTTP b client order false lowestAddr r = .ok w ∧
      Relayed resp (w.finish complete r.method)) ↔ Relayable complete r resp := by
  have hserve : serveHTTP b client order false lowestAddr r = relay .new resp := by
    unfold serveHTTP
    rw [hheaders]
    simp only [Bool.false_eq_true, if_false, hrequest, hresp]
  rw [hserve]
  constructor
  · rintro ⟨w, hw, hrelayed⟩
    have hstatus : resp.statusCode = 101 ∨ (200 ≤ resp.statusCode ∧ resp.statusCode ≤ 999) := by
      by_contra hnot
      -- a status that is not final is not the one that is sent
      unfold relay at hw
      rw [if_pos (by omega)] at hw
      unfold ResponseWriter.writeHeader at hw
      rw [if_neg (by simp [ResponseWriter.new])] at hw
      split_ifs at hw with hinvalid hinfo
      · obtain rfl := Except.ok.inj hw
        have h200 : 200 = resp.statusCode := hrelayed.status
        omega
      · omega
    obtain ⟨w', hw', hsent, hbody⟩ := (relay_new hread).mpr hstatus
    obtain rfl := Except.ok.inj (hw'.symm.trans hw)
    refine ⟨hstatus, ?_, fun key values hend hlookup => ?_⟩
    · rw [← copied_eq_body_iff, ← hbody]
      exact hrelayed.body
    · have hheader := hrelayed.header key values hend hlookup
      unfold ResponseWriter.finish at hheader
      rw [hsent, hbody] at hheader
      exact hheader
  · intro h
    obtain ⟨w, hw, hsent, hbody⟩ := (relay_new hread).mpr h.status
    refine ⟨w, hw, ?_, fun key values hend hlookup => ?_, ?_⟩
    · show (w.sent.getD (200, w.header)).1 = _
      rw [hsent]
    · show (complete r.method (w.sent.getD (200, w.header)).1 (w.sent.getD (200, w.header)).2
        w.body).lookup key = _
      rw [hsent, hbody]
      exact h.header key values hend hlookup
    · show (if r.method = "HEAD" then [] else w.body) = _
      rw [hbody]
      exact copied_eq_body_iff.mpr h.body

end Server

/-! ## A page that is not found -/

/-- A request for a page. -/
def pageRequest : ClientRequest := ⟨"GET", "/page", ∅, []⟩

/-- A client that gets the given response. -/
def respondingClient (resp : BackendResponse) : HTTPClient := ⟨fun _ => .ok (), fun _ => .ok resp⟩

/-- A server that adds the length of the body to the headers. -/
def lengthServer (_ : String) (_ : ℕ) (header : Header) (body : List UInt8) : Header :=
  header.insert "Content-Length" [toString body.length]

/-- A balancer for the requests. -/
def pageBalancer : Balancer where
  listenSpec := "127.0.0.1:8000"
  listenerIP := "127.0.0.1"
  kind := .http
  backendAddresses := {"10.0.0.1:80"}
  backendConns := ∅
  connBuffer := 16
  maxConns := 16
  timeout := 0

/-- A page with no header but its length. -/
def plainPage : BackendResponse :=
  ⟨200, Finmap.singleton "Content-Length" ["2"], [104, 105], none⟩

/-- A page that is not found. -/
def missingPage : BackendResponse :=
  ⟨404, Finmap.singleton "Content-Type" ["text/html"], textBytes "<h1>no such page</h1>", none⟩

theorem serveHTTP_relays_plainPage :
    ∃ w, serveHTTP pageBalancer (respondingClient plainPage) (sortedOrder _ _) false "10.0.0.1:80"
        pageRequest = .ok w ∧
      Relayed plainPage (w.finish lengthServer "GET") := by
  have hheaders : forwardHeaders pageBalancer.listenerIP pageRequest.header
      ((sortedOrder _ _).keys pageRequest.header) ∅ = some ∅ := rfl
  refine (serveHTTP_relays_iff hheaders rfl rfl rfl).mpr
    ⟨Or.inr ⟨by decide, by decide⟩, Or.inr ⟨rfl, by decide⟩, fun key values _ hlookup => ?_⟩
  have hkey : key = "Content-Length" := by
    have hmem : key ∈ plainPage.header := Finmap.mem_of_lookup_eq_some hlookup
    exact (Finmap.mem_singleton key "Content-Length" _).mp hmem
  subst hkey
  exact hlookup

/-- **A response that is not relayed.**  The backend answers a request with the status 404, a
content type and a page; the client gets the status, no content type unless the server makes
one up, and no page. -/
theorem serveHTTP_drops_missingPage :
    EndToEnd missingPage.header "Content-Type" ∧
    serveHTTP pageBalancer (respondingClient missingPage) (sortedOrder _ _) false "10.0.0.1:80"
        pageRequest = .ok ⟨∅, some (404, ∅), []⟩ ∧
    ∀ complete w, serveHTTP pageBalancer (respondingClient missingPage) (sortedOrder _ _) false
        "10.0.0.1:80" pageRequest = .ok w →
      (w.finish complete "GET").body = [] ∧ missingPage.body ≠ [] ∧
      ¬ Relayed missingPage (w.finish complete "GET") := by
  have hserve : serveHTTP pageBalancer (respondingClient missingPage) (sortedOrder _ _) false
      "10.0.0.1:80" pageRequest = .ok ⟨∅, some (404, ∅), []⟩ := rfl
  have hbody : missingPage.body ≠ [] := by decide +kernel
  refine ⟨⟨by decide +kernel, by decide +kernel⟩, hserve, fun complete w hw => ?_⟩
  obtain rfl := Except.ok.inj (hserve.symm.trans hw)
  exact ⟨rfl, hbody, fun h => hbody h.body.symm⟩

end Border
