/-
# The `X-Forwarded-For` header

What becomes of the headers of a request in `serveHTTP` (`pkg/lb/http.go`), and on the way through
several balancers.  The header is looked at only where the loop over the headers of the request
meets it.

* `forwardChain_header` : the headers after any number of balancers;
* `serveHTTP_extends_iff` : the header lists the entries it had and the balancers passed exactly
  when the request came with one, and with no empty value in it.  A request with several values is
  refused, whatever a backend would say.
-/
import Border.HTTPRelay
import Border.TextSplit

namespace Border

open GoMap

/-! ## The request that is sent -/

/-- The key of the header, in canonical form. -/
abbrev xForwardedFor : String := "X-Forwarded-For"

/-- The request that `serveHTTP` sends to the backend; `none` when it refuses the client's. -/
def backendRequest (b : Balancer) (order : RangeOrder String (List String)) (lowestAddr : String)
    (r : ClientRequest) : Option BackendRequest :=
  (forwardHeaders b.listenerIP r.header (order.keys r.header) ∅).map fun headers =>
    { r with header := headers, host := lowestAddr }

/-- What is written of the exchange with the backend. -/
def sendOn (client : HTTPClient) (req : BackendRequest) : Except Failure ResponseWriter :=
  match client.newRequest req with
  | .error e => ResponseWriter.new.error ("Proxy error: " ++ e) 500
  | .ok _ =>
    match client.exchange req with
    | .error e => ResponseWriter.new.error ("Proxy error: " ++ e) 500
    | .ok resp => relay .new resp

/-- `serveHTTP` sends this request and no other. -/
theorem serveHTTP_sent {b : Balancer} {order : RangeOrder String (List String)}
    {lowestAddr : String} {r : ClientRequest} {req : BackendRequest}
    (h : backendRequest b order lowestAddr r = some req) (client : HTTPClient) :
    serveHTTP b client order false lowestAddr r = sendOn client req := by
  unfold backendRequest at h
  obtain ⟨headers, hheaders, rfl⟩ := Option.map_eq_some_iff.mp h
  unfold serveHTTP
  rw [hheaders]
  rfl

/-- Without it, the backend has no say in what the client gets. -/
theorem serveHTTP_refused {b : Balancer} {order : RangeOrder String (List String)}
    {lowestAddr : String} {r : ClientRequest} (h : backendRequest b order lowestAddr r = none)
    (client : HTTPClient) (stopped : Bool) :
    serveHTTP b client order stopped lowestAddr r
      = ResponseWriter.new.error "Multiple X-Forwarded-For headers; failing this connection"
          500 := by
  unfold backendRequest at h
  unfold serveHTTP
  rw [Option.map_eq_none_iff.mp h]

/-! ## The loop over the headers -/

/-- The values that are sent on under a key. -/
def sentValues (listenerIP key : String) (values : List String) : Option (List String) :=
  if canonicalHeaderKey key = canonicalHeaderKey "x-forwarded-for" then
    forwardedFor listenerIP values
  else some values

theorem sentValues_forwarded (listenerIP : String) (values : List String) :
    sentValues listenerIP xForwardedFor values = forwardedFor listenerIP values := by
  have hkey : canonicalHeaderKey xForwardedFor = canonicalHeaderKey "x-forwarded-for" := by
    decide +kernel
  unfold sentValues
  exact if_pos hkey

theorem sentValues_other {key : String} (hcanonical : canonicalHeaderKey key = key)
    (hne : key ≠ xForwardedFor) (listenerIP : String) (values : List String) :
    sentValues listenerIP key values = some values := by
  have hkey : canonicalHeaderKey "x-forwarded-for" = xForwardedFor := by decide +kernel
  unfold sentValues
  rw [hcanonical, hkey]
  exact if_neg hne

/-- One iteration. -/
theorem forwardHeaders_cons {listenerIP : String} {header : Header} {key : String}
    {values : List String} (h : header.lookup key = some values) (keys : List String)
    (headers : Header) :
    forwardHeaders listenerIP header (key :: keys) headers
      = (sentValues listenerIP key values).bind fun values =>
          forwardHeaders listenerIP header keys (headers.insert key values) := by
  rw [forwardHeaders, h]
  unfold sentValues
  dsimp only
  split_ifs with hkey
  · cases forwardedFor listenerIP values <;> rfl
  · rfl

/-- The loop sends on every header it meets, where none of them is refused. -/
theorem forwardHeaders_lookup {listenerIP : String} {header : Header} {keys : List String}
    (hsent : ∀ key ∈ keys, ∃ values sent, header.lookup key = some values ∧
      sentValues listenerIP key values = some sent) (headers : Header) :
    ∃ result, forwardHeaders listenerIP header keys headers = some result ∧
      ∀ key, result.lookup key
        = if key ∈ keys then (header.lookup key).bind (sentValues listenerIP key)
          else headers.lookup key := by
  induction keys generalizing headers with
  | nil => exact ⟨headers, rfl, fun key => (if_neg List.not_mem_nil).symm⟩
  | cons key keys ih =>
    obtain ⟨values, sent, hlookup, hvalues⟩ := hsent key List.mem_cons_self
    obtain ⟨result, hresult, hall⟩ :=
      ih (fun k hk => hsent k (List.mem_cons_of_mem _ hk)) (headers.insert key sent)
    refine ⟨result, ?_, fun k => ?_⟩
    · rw [forwardHeaders_cons hlookup, hvalues]
      exact hresult
    · rw [hall k]
      by_cases hk : k ∈ keys
      · rw [if_pos hk, if_pos (List.mem_cons_of_mem _ hk)]
      · rw [if_neg hk]
        by_cases heq : k = key
        · subst heq
          rw [Finmap.lookup_insert, if_pos List.mem_cons_self, hlookup]
          exact hvalues.symm
        · rw [Finmap.lookup_insert_of_ne _ heq, if_neg (by simp [heq, hk])]

/-- The loop stops at a header that is refused, wherever it meets it. -/
theorem forwardHeaders_none {listenerIP : String} {header : Header} {key : String}
    {values : List String} (hlookup : header.lookup key = some values)
    (hrefused : sentValues listenerIP key values = none) {keys : List String} (hkey : key ∈ keys)
    (headers : Header) : forwardHeaders listenerIP header keys headers = none := by
  induction keys generalizing headers with
  | nil => exact absurd hkey List.not_mem_nil
  | cons k keys ih =>
    by_cases heq : k = key
    · subst heq
      rw [forwardHeaders_cons hlookup, hrefused]
      rfl
    · have hrest : key ∈ keys := (List.mem_cons.mp hkey).resolve_left fun h => heq h.symm
      cases hk : header.lookup k with
      | none =>
        rw [forwardHeaders, hk]
        exact ih hrest headers
      | some values' =>
        rw [forwardHeaders_cons hk]
        cases sentValues listenerIP k values' with
        | none => rfl
        | some sent => exact ih hrest (headers.insert k sent)

/-! ## The values of the header -/

/-- At most one value is extended. -/
theorem forwardedFor_of_length_le {values : List String} (h : values.length ≤ 1)
    (listenerIP : String) :
    forwardedFor listenerIP values
      = some [String.intercalate "," (values.flatMap (·.splitOn ",") ++ [listenerIP])] := by
  match values with
  | [] => simp [forwardedFor]
  | [value] => simp [forwardedFor]
  | _ :: _ :: _ => exact absurd h (by simp)

/-- Several values are refused. -/
theorem forwardedFor_of_two_le {values : List String} (h : 2 ≤ values.length)
    (listenerIP : String) : forwardedFor listenerIP values = none := by
  match values with
  | [] => exact absurd h (by simp)
  | [_] => exact absurd h (by simp)
  | _ :: _ :: _ => rfl

/-- The keys are in canonical form, as the server makes them. -/
def CanonicalKeys (header : Header) : Prop := ∀ key ∈ header, canonicalHeaderKey key = key

/-- There is at most one `X-Forwarded-For` value. -/
def AtMostOneValue (header : Header) : Prop :=
  ∀ values, header.lookup xForwardedFor = some values → values.length ≤ 1

/-- **The headers that are sent**: those of the request, with the address of the listener behind
the `X-Forwarded-For` value if there is such a header. -/
theorem backendRequest_header {r : ClientRequest} (hcanonical : CanonicalKeys r.header)
    (hone : AtMostOneValue r.header) (b : Balancer) (order : RangeOrder String (List String))
    (lowestAddr : String) :
    ∃ req, backendRequest b order lowestAddr r = some req ∧
      (∀ key, key ≠ xForwardedFor → req.header.lookup key = r.header.lookup key) ∧
      req.header.lookup xForwardedFor = (r.header.lookup xForwardedFor).map fun values =>
        [String.intercalate "," (values.flatMap (·.splitOn ",") ++ [b.listenerIP])] := by
  have hforwarded : ∀ values, r.header.lookup xForwardedFor = some values →
      sentValues b.listenerIP xForwardedFor values
        = some [String.intercalate "," (values.flatMap (·.splitOn ",") ++ [b.listenerIP])] := by
    intro values hvalues
    rw [sentValues_forwarded, forwardedFor_of_length_le (hone values hvalues)]
  have hother : ∀ key ∈ r.header, key ≠ xForwardedFor → ∀ values,
      sentValues b.listenerIP key values = some values :=
    fun key hkey hne values => sentValues_other (hcanonical key hkey) hne _ _
  have hsent : ∀ key ∈ order.keys r.header, ∃ values sent, r.header.lookup key = some values ∧
      sentValues b.listenerIP key values = some sent := by
    intro key hkey
    rw [order.mem_keys] at hkey
    obtain ⟨values, hvalues⟩ := Finmap.mem_iff.mp hkey
    by_cases hne : key = xForwardedFor
    · subst hne
      exact ⟨values, _, hvalues, hforwarded values hvalues⟩
    · exact ⟨values, values, hvalues, hother key hkey hne values⟩
  obtain ⟨headers, hheaders, hlookup⟩ := forwardHeaders_lookup hsent ∅
  -- a key the loop does not meet is in neither map
  have hall : ∀ key, headers.lookup key
      = (r.header.lookup key).bind (sentValues b.listenerIP key) := by
    intro key
    rw [hlookup key]
    split_ifs with hkey
    · rfl
    · rw [order.mem_keys] at hkey
      rw [Finmap.lookup_eq_none.mpr hkey]
      rfl
  refine ⟨{ r with header := headers, host := lowestAddr }, ?_, fun key hne => ?_, ?_⟩
  · unfold backendRequest
    rw [hheaders]
    rfl
  · show headers.lookup key = _
    rw [hall key]
    cases hvalues : r.header.lookup key with
    | none => rfl
    | some values => exact hother key (Finmap.mem_of_lookup_eq_some hvalues) hne values
  · show headers.lookup xForwardedFor = _
    rw [hall xForwardedFor]
    cases hvalues : r.header.lookup xForwardedFor with
    | none => rfl
    | some values => exact hforwarded values hvalues

/-- A request with several values is not sent on. -/
theorem backendRequest_none {r : ClientRequest} (hseveral : ¬ AtMostOneValue r.header)
    (b : Balancer) (order : RangeOrder String (List String)) (lowestAddr : String) :
    backendRequest b order lowestAddr r = none := by
  unfold AtMostOneValue at hseveral
  push Not at hseveral
  obtain ⟨values, hvalues, hlength⟩ := hseveral
  have hkey : xForwardedFor ∈ order.keys r.header :=
    (order.mem_keys _ _).mpr (Finmap.mem_of_lookup_eq_some hvalues)
  have hrefused : sentValues b.listenerIP xForwardedFor values = none := by
    rw [sentValues_forwarded, forwardedFor_of_two_le hlength]
  unfold backendRequest
  rw [forwardHeaders_none hvalues hrefused hkey]
  rfl

/-! ## A chain of balancers -/

/-- A balancer on the way of a request, with the order in which it meets the headers and the
address it selects. -/
structure Hop where
  balancer : Balancer
  order : RangeOrder String (List String)
  lowestAddr : String

/-- The addresses of the listeners, in the order in which a request passes them. -/
def listenerIPs (hops : List Hop) : List String := hops.map fun hop => hop.balancer.listenerIP

/-- The request that the last of several balancers sends: what one of them sends is the request
that the next one serves. -/
def forwardChain : List Hop → ClientRequest → Option ClientRequest
  | [], r => some r
  | hop :: hops, r =>
    (backendRequest hop.balancer hop.order hop.lowestAddr r).bind fun req =>
      forwardChain hops req.toClientRequest

/-- What a value is after the listeners `ips`. -/
def chainValues (ips : List String) (values : List String) : List String :=
  if ips = [] then values else [String.intercalate "," (values.flatMap (·.splitOn ",") ++ ips)]

/-- One listener and then the others. -/
theorem chainValues_cons (ip : String) (ips values : List String) :
    chainValues ips [String.intercalate "," (values.flatMap (·.splitOn ",") ++ [ip])]
      = chainValues (ip :: ips) values := by
  unfold chainValues
  rw [if_neg (List.cons_ne_nil ip ips)]
  by_cases hips : ips = []
  · rw [if_pos hips, hips]
  · have hjoin := TextSplit.intercalate_splitOn_append
      (String.intercalate "," (values.flatMap (·.splitOn ",") ++ [ip])) ',' hips
    have happend : values.flatMap (·.splitOn ",") ++ ip :: ips
        = (values.flatMap (·.splitOn ",") ++ [ip]) ++ ips := by simp
    rw [if_neg hips, happend,
      String.intercalate_append_of_ne_nil (l := values.flatMap (·.splitOn ",") ++ [ip]) (by simp)
        hips, List.flatMap_singleton]
    exact congrArg (fun value => [value]) hjoin

/-- **The headers after a chain of balancers**, whatever the orders in which they meet them. -/
theorem forwardChain_header (hops : List Hop) {r : ClientRequest}
    (hcanonical : CanonicalKeys r.header) (hone : AtMostOneValue r.header) :
    ∃ r', forwardChain hops r = some r' ∧
      (∀ key, key ≠ xForwardedFor → r'.header.lookup key = r.header.lookup key) ∧
      r'.header.lookup xForwardedFor
        = (r.header.lookup xForwardedFor).map (chainValues (listenerIPs hops)) := by
  induction hops generalizing r with
  | nil =>
    refine ⟨r, rfl, fun _ _ => rfl, ?_⟩
    have hid : chainValues (listenerIPs []) = id := by
      funext values
      exact if_pos rfl
    rw [hid, Option.map_id]
    rfl
  | cons hop hops ih =>
    obtain ⟨req, hreq, hother, hforwarded⟩ :=
      backendRequest_header hcanonical hone hop.balancer hop.order hop.lowestAddr
    -- the next balancer meets the same keys, and one value at most
    have hcanonical' : CanonicalKeys req.header := by
      intro key hkey
      apply hcanonical key
      rw [← Finmap.lookup_isSome] at hkey ⊢
      by_cases hne : key = xForwardedFor
      · subst hne
        rw [hforwarded, Option.isSome_map] at hkey
        exact hkey
      · rw [hother key hne] at hkey
        exact hkey
    have hone' : AtMostOneValue req.header := by
      intro values hvalues
      rw [hforwarded] at hvalues
      obtain ⟨_, -, rfl⟩ := Option.map_eq_some_iff.mp hvalues
      exact le_refl 1
    obtain ⟨r', hr', hother', hforwarded'⟩ := ih (r := req.toClientRequest) hcanonical' hone'
    refine ⟨r', ?_, fun key hne => (hother' key hne).trans (hother key hne), ?_⟩
    · rw [forwardChain, hreq]
      exact hr'
    · rw [hforwarded', hforwarded, Option.map_map]
      congr 1
      funext values
      exact chainValues_cons hop.balancer.listenerIP (listenerIPs hops) values

/-! ## What the header is to list -/

/-- The entries of a value; an empty value has none. -/
def listEntries (value : String) : List String := if value = "" then [] else value.splitOn ","

/-- The values after the listeners `ips`: the entries there were and the listeners, in order. -/
def listedAfter (entries : String → List String) (ips : List String)
    (values : Option (List String)) : Option (List String) :=
  if ips = [] then values
  else some [String.intercalate "," ((values.getD []).flatMap entries ++ ips)]

/-- The headers with `X-Forwarded-For` extended by the listeners `ips`. -/
structure Extended (entries : String → List String) (ips : List String)
    (header headers : Header) : Prop where
  listed : headers.lookup xForwardedFor
    = listedAfter entries ips (header.lookup xForwardedFor)
  others : ∀ key, key ≠ xForwardedFor → headers.lookup key = header.lookup key

/-- The chain sends the request on with the header extended by all its listeners. -/
def ChainExtends (entries : String → List String) (hops : List Hop) (r : ClientRequest) : Prop :=
  ∃ r', forwardChain hops r = some r' ∧ Extended entries (listenerIPs hops) r.header r'.header

/-- One balancer sends the request on with the header extended by its listener. -/
def SendsExtended (entries : String → List String) (b : Balancer)
    (order : RangeOrder String (List String)) (lowestAddr : String) (r : ClientRequest) : Prop :=
  ∃ req, backendRequest b order lowestAddr r = some req ∧
    Extended entries [b.listenerIP] r.header req.header

/-- Nothing is to be listed without a balancer. -/
theorem chainExtends_nil (entries : String → List String) (r : ClientRequest) :
    ChainExtends entries [] r :=
  ⟨r, rfl, rfl, fun _ _ => rfl⟩

section Chain

variable {r : ClientRequest} (hcanonical : CanonicalKeys r.header)
  (hone : AtMostOneValue r.header)
include hcanonical hone

/-- The header is extended where there is one and its entries are joined as they were split. -/
theorem chainExtends_iff (entries : String → List String) {hops : List Hop} (hhops : hops ≠ []) :
    ChainExtends entries hops r ↔
      ∃ values, r.header.lookup xForwardedFor = some values ∧
        String.intercalate "," (values.flatMap (·.splitOn ",") ++ listenerIPs hops)
          = String.intercalate "," (values.flatMap entries ++ listenerIPs hops) := by
  have hips : listenerIPs hops ≠ [] := by simpa [listenerIPs] using hhops
  obtain ⟨r', hr', hother, hforwarded⟩ := forwardChain_header hops hcanonical hone
  have hextends : ChainExtends entries hops r ↔
      (r.header.lookup xForwardedFor).map (chainValues (listenerIPs hops))
        = listedAfter entries (listenerIPs hops) (r.header.lookup xForwardedFor) := by
    unfold ChainExtends
    rw [hr', ← hforwarded]
    constructor
    · rintro ⟨r'', heq, hext⟩
      obtain rfl := Option.some.inj heq
      exact hext.listed
    · exact fun hlisted => ⟨r', rfl, hlisted, hother⟩
  rw [hextends]
  unfold listedAfter chainValues
  rw [if_neg hips]
  cases r.header.lookup xForwardedFor with
  | none => simp
  | some values => simp [hips]

/-- Where an empty value is read as one empty entry, the header need only be there. -/
theorem chainExtends_splitOn_iff (hops : List Hop) :
    ChainExtends (·.splitOn ",") hops r ↔ hops = [] ∨ xForwardedFor ∈ r.header := by
  by_cases hhops : hops = []
  · subst hhops
    exact iff_of_true (chainExtends_nil _ r) (Or.inl rfl)
  · rw [chainExtends_iff hcanonical hone _ hhops]
    simp [hhops, Finmap.mem_iff]

/-- Where an empty value is read as no entry, it must not be the value. -/
theorem chainExtends_listEntries_iff (hops : List Hop) :
    ChainExtends listEntries hops r ↔
      hops = [] ∨ (xForwardedFor ∈ r.header ∧ r.header.lookup xForwardedFor ≠ some [""]) := by
  by_cases hhops : hops = []
  · subst hhops
    exact iff_of_true (chainExtends_nil _ r) (Or.inl rfl)
  · have hips : listenerIPs hops ≠ [] := by simpa [listenerIPs] using hhops
    rw [chainExtends_iff hcanonical hone _ hhops, or_iff_right hhops, Finmap.mem_iff]
    constructor
    · rintro ⟨values, hvalues, hjoined⟩
      refine ⟨⟨values, hvalues⟩, fun hempty => ?_⟩
      rw [hvalues] at hempty
      obtain rfl := Option.some.inj hempty
      -- the empty entry leaves a comma in front
      have hcomma : String.intercalate "," ([""].flatMap (·.splitOn ",") ++ listenerIPs hops)
          = "" ++ "," ++ String.intercalate "," (listenerIPs hops) := by
        rw [List.flatMap_singleton]
        exact TextSplit.intercalate_splitOn_append "" ',' hips
      rw [hcomma] at hjoined
      have hlength := congrArg String.length hjoined
      simp [listEntries] at hlength
    · rintro ⟨⟨values, hvalues⟩, hne⟩
      refine ⟨values, hvalues, ?_⟩
      have hentries : values.flatMap (·.splitOn ",") = values.flatMap listEntries := by
        match values, hone values hvalues with
        | [], _ => rfl
        | [value], _ =>
          have hvalue : value ≠ "" := by
            rintro rfl
            exact hne hvalues
          rw [List.flatMap_singleton, List.flatMap_singleton, listEntries, if_neg hvalue]
      rw [hentries]

end Chain

/-- One balancer is a chain. -/
theorem sendsExtended_iff_chain (entries : String → List String) (b : Balancer)
    (order : RangeOrder String (List String)) (lowestAddr : String) (r : ClientRequest) :
    SendsExtended entries b order lowestAddr r ↔
      ChainExtends entries [⟨b, order, lowestAddr⟩] r := by
  unfold SendsExtended ChainExtends
  constructor
  · rintro ⟨req, hreq, hext⟩
    refine ⟨req.toClientRequest, ?_, hext⟩
    rw [forwardChain, hreq]
    rfl
  · rintro ⟨r', hr', hext⟩
    rw [forwardChain] at hr'
    obtain ⟨req, hreq, hrest⟩ := Option.bind_eq_some_iff.mp hr'
    obtain rfl := Option.some.inj hrest
    exact ⟨req, hreq, hext⟩

/-- **When `X-Forwarded-For` is extended.**  Take any request whose keys are in canonical form.
With at most one value, one balancer sends the entries of the header and its listener, and a chain
of balancers the entries and all their listeners, exactly when the request has the header and not
an empty value; read as one entry, an empty value is extended too.  With several values the request
is refused, and no backend hears of it. -/
theorem serveHTTP_extends_iff (r : ClientRequest) (hcanonical : CanonicalKeys r.header) :
    (AtMostOneValue r.header →
      (∀ b order lowestAddr, SendsExtended listEntries b order lowestAddr r ↔
        xForwardedFor ∈ r.header ∧ r.header.lookup xForwardedFor ≠ some [""]) ∧
      (∀ hops, ChainExtends listEntries hops r ↔
        hops = [] ∨ (xForwardedFor ∈ r.header ∧ r.header.lookup xForwardedFor ≠ some [""])) ∧
      (∀ b order lowestAddr, SendsExtended (·.splitOn ",") b order lowestAddr r ↔
        xForwardedFor ∈ r.header) ∧
      ∀ hops, ChainExtends (·.splitOn ",") hops r ↔ hops = [] ∨ xForwardedFor ∈ r.header) ∧
    (¬ AtMostOneValue r.header → ∀ b order lowestAddr,
      backendRequest b order lowestAddr r = none ∧
      ∀ client stopped, serveHTTP b client order stopped lowestAddr r
        = ResponseWriter.new.error "Multiple X-Forwarded-For headers; failing this connection"
            500) := by
  refine ⟨fun hone => ⟨fun b order lowestAddr => ?_, fun hops => ?_, fun b order lowestAddr => ?_,
    fun hops => ?_⟩, fun hseveral b order lowestAddr => ?_⟩
  · rw [sendsExtended_iff_chain, chainExtends_listEntries_iff hcanonical hone]
    exact or_iff_right (List.cons_ne_nil _ _)
  · exact chainExtends_listEntries_iff hcanonical hone hops
  · rw [sendsExtended_iff_chain, chainExtends_splitOn_iff hcanonical hone]
    exact or_iff_right (List.cons_ne_nil _ _)
  · exact chainExtends_splitOn_iff hcanonical hone hops
  · have hnone := backendRequest_none hseveral b order lowestAddr
    exact ⟨hnone, serveHTTP_refused hnone⟩

/-- A request that has come through a proxy. -/
def proxiedRequest : ClientRequest :=
  ⟨"GET", "/page", (Finmap.singleton "User-Agent" ["curl/8.0"]).insert xForwardedFor
    ["192.0.2.7, 198.51.100.1"], []⟩

/-- The balancer of the page, met by a request. -/
def pageHop : Hop := ⟨pageBalancer, sortedOrder _ _, "10.0.0.1:80"⟩

theorem serveHTTP_extends_proxiedRequest :
    ∃ r', forwardChain [pageHop, pageHop] proxiedRequest = some r' ∧
      r'.header.lookup xForwardedFor = some ["192.0.2.7, 198.51.100.1,127.0.0.1,127.0.0.1"] := by
  have hcanonical : CanonicalKeys proxiedRequest.header := by
    intro key hkey
    rcases Finmap.mem_insert.mp hkey with rfl | hkey
    · decide +kernel
    · rw [(Finmap.mem_singleton _ _ _).mp hkey]
      decide +kernel
  have hvalues : proxiedRequest.header.lookup xForwardedFor = some ["192.0.2.7, 198.51.100.1"] :=
    Finmap.lookup_insert _
  have hone : AtMostOneValue proxiedRequest.header := by
    intro values h
    rw [hvalues] at h
    obtain rfl := Option.some.inj h
    exact le_refl 1
  have hchain := ((serveHTTP_extends_iff proxiedRequest hcanonical).1 hone).2.1 [pageHop, pageHop]
  have hpresent : xForwardedFor ∈ proxiedRequest.header := Finmap.mem_of_lookup_eq_some hvalues
  obtain ⟨r', hr', hext⟩ := hchain.mpr (Or.inr ⟨hpresent, by rw [hvalues]; decide⟩)
  refine ⟨r', hr', ?_⟩
  have hentries : listEntries "192.0.2.7, 198.51.100.1" = "192.0.2.7, 198.51.100.1".splitOn "," :=
    if_neg (by decide)
  have hjoin := TextSplit.intercalate_splitOn_append "192.0.2.7, 198.51.100.1" ','
    (List.cons_ne_nil "127.0.0.1" ["127.0.0.1"])
  rw [hext.listed, hvalues]
  show some [String.intercalate "," (["192.0.2.7, 198.51.100.1"].flatMap listEntries
    ++ ["127.0.0.1", "127.0.0.1"])] = _
  rw [List.flatMap_singleton, hentries]
  exact congrArg (fun value => some [value]) hjoin

/-- A request that comes from its client. -/
def agentRequest : ClientRequest :=
  ⟨"GET", "/page", Finmap.singleton "User-Agent" ["curl/8.0"], []⟩

/-- **A request without the header gets none**: the backend does not learn of the listener. -/
theorem serveHTTP_omits_forwardedFor :
    CanonicalKeys agentRequest.header ∧ AtMostOneValue agentRequest.header ∧
    ∀ order, ∃ req, backendRequest pageBalancer order "10.0.0.1:80" agentRequest = some req ∧
      req.header.lookup xForwardedFor = none ∧
      ¬ SendsExtended listEntries pageBalancer order "10.0.0.1:80" agentRequest ∧
      ¬ SendsExtended (·.splitOn ",") pageBalancer order "10.0.0.1:80" agentRequest := by
  have hcanonical : CanonicalKeys agentRequest.header := by
    intro key hkey
    rw [(Finmap.mem_singleton _ _ _).mp hkey]
    decide +kernel
  have habsent : xForwardedFor ∉ agentRequest.header := by
    intro h
    exact absurd ((Finmap.mem_singleton _ _ _).mp h) (by decide)
  have hnone := Finmap.lookup_eq_none.mpr habsent
  have hone : AtMostOneValue agentRequest.header := by
    intro values h
    rw [hnone] at h
    exact absurd h (by simp)
  refine ⟨hcanonical, hone, fun order => ?_⟩
  obtain ⟨req, hreq, -, hforwarded⟩ :=
    backendRequest_header hcanonical hone pageBalancer order "10.0.0.1:80"
  rw [hnone] at hforwarded
  refine ⟨req, hreq, hforwarded, ?_, ?_⟩
  · rw [sendsExtended_iff_chain, chainExtends_listEntries_iff hcanonical hone]
    simp [habsent]
  · rw [sendsExtended_iff_chain, chainExtends_splitOn_iff hcanonical hone]
    simp [habsent]

end Border
