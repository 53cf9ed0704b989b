/-
# DNS messages

The parts of a DNS message that a server fills in: resource records with their headers,
the question, and the reply.  `splitDomainName` cuts a name into its labels as
`dns.SplitDomainName` does: at every dot that is not escaped by a backslash.
-/
import Border.NetAddr

namespace Dns

open NetAddr

/-! ## Records, questions and replies -/

/-- The types of records and of questions. -/
inductive RRType
  | a
  | ns
  | soa
  | aaaa
  | other (code : ℕ)
  deriving DecidableEq, Repr

/-- `dns.ClassINET`. -/
def classINET : ℕ := 1

/-- `dns.RR_Header`. -/
structure RRHeader where
  name : String
  rrtype : RRType
  cls : ℕ
  ttl : ℕ
  deriving DecidableEq, Repr

/-- The resource records `dns.A`, `dns.AAAA`, `dns.NS` and `dns.SOA`. -/
inductive RR
  | a (hdr : RRHeader) (ip : IP)
  | aaaa (hdr : RRHeader) (ip : IP)
  | ns (hdr : RRHeader) (server : String)
  | soa (hdr : RRHeader) (server mbox : String) (serial refresh retry expire minTTL : ℕ)
  deriving DecidableEq, Repr

/-- The address an A or AAAA record holds. -/
def RR.address : RR → Option IP
  | .a _ ip => some ip
  | .aaaa _ ip => some ip
  | _ => none

/-- The addresses in a list of records. -/
def addresses (rrs : List RR) : List IP := rrs.filterMap RR.address

/-- `dns.Question`. -/
structure Question where
  name : String
  qtype : RRType
  deriving DecidableEq, Repr

/-- The response codes `RcodeSuccess` and `RcodeNameError`. -/
inductive Rcode
  | success
  | nameError
  deriving DecidableEq, Repr

/-- The reply to a message. -/
structure Reply where
  rcode : Rcode
  authoritative : Bool
  recursionAvailable : Bool
  answer : List RR
  deriving DecidableEq, Repr

/-! ## Labels -/

/-- The labels of a text that is not empty.  `escaped` says whether an odd number of
backslashes stands before it, and `label` is the label so far, last character first. -/
def splitLabels : Bool → List Char → List Char → List (List Char)
  | _, label, [] => [label.reverse]
  | false, label, ['.'] => [label.reverse]
  | false, label, '.' :: rest => label.reverse :: splitLabels false [] rest
  | escaped, label, c :: rest => splitLabels (c = '\\' && !escaped) (c :: label) rest

/-- `dns.SplitDomainName`: neither the empty name nor the root has a label. -/
def splitDomainName (name : String) : List String :=
  if name = "" ∨ name = "." then []
  else (splitLabels false [] name.toList).map String.ofList

example : splitDomainName "www.example\\.com.arpa." = ["www", "example\\.com", "arpa"] := by
  decide +kernel

end Dns
