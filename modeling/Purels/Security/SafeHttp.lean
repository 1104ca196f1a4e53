import Purels.Domain.Models
import Purels.Go.Ranges

/-!
# The dialer of the health probe

`RoutableIP` and `probeDial`, with what the resolver answers and which connections come
about as arguments.

* `SplitHostPort`: `net.SplitHostPort`.
* `Candidate`: an address the resolver returns, and what dialing it comes to.
* `probeDial`, which also says which addresses it has dialed.
-/

namespace Purels.Security

open Go

/-! ## Addresses -/

/-- `RoutableIP`. -/
def RoutableIP (ip : List UInt8) : Bool := isGlobalUnicast (to16 ip) && !isPrivate (to16 ip)

example : RoutableIP [8, 8, 8, 8] = true := by decide
example : RoutableIP (v4InV6 ++ [127, 0, 0, 1]) = false := by decide

/-- Why no connection comes about. -/
inductive DialError where
  | address (message : String)
  | lookup (message : String)
  | refused (ip : List UInt8)
  | dial (message : String)
  | noAddress (host : GoString)
  deriving DecidableEq

/-- `net.SplitHostPort`. -/
def SplitHostPort (hostport : GoString) : Except DialError (GoString × GoString) :=
  match cutLast 0x3A hostport with
  | none => .error (.address "missing port in address")
  | some (front, port) =>
    if hostport.head? = some 0x5B then
      match hostport.findIdx? (· == 0x5D) with
      | none => .error (.address "missing ']' in address")
      | some close =>
        if close + 1 = hostport.length then .error (.address "missing port in address")
        else if close + 1 ≠ front.length then
          if hostport[close + 1]? = some 0x3A then .error (.address "too many colons in address")
          else .error (.address "missing port in address")
        else if 0x5B ∈ hostport.drop 1 then .error (.address "unexpected '[' in address")
        else if 0x5D ∈ hostport.drop (close + 1) then
          .error (.address "unexpected ']' in address")
        else .ok ((hostport.take close).drop 1, port)
    else if 0x3A ∈ front then .error (.address "too many colons in address")
    else if 0x5B ∈ hostport then .error (.address "unexpected '[' in address")
    else if 0x5D ∈ hostport then .error (.address "unexpected ']' in address")
    else .ok (front, port)

example : SplitHostPort (lit "[::1]:80") = .ok (lit "::1", lit "80") := by decide
example : SplitHostPort (lit "a.io:443") = .ok (lit "a.io", lit "443") := by decide

/-! ## The dialer -/

/-- An address the resolver returns, and the error of dialing it, if it does not connect. -/
structure Candidate where
  ip : List UInt8
  failure : Option String := none
  deriving DecidableEq

/-- The connection comes about. -/
def Candidate.connects (candidate : Candidate) : Bool := candidate.failure.isNone

/-- The loop of `probeDial`: the address it is connected to, or the last error, and the
addresses it has dialed. -/
def dialCandidates (lastErr : Option DialError) :
    List Candidate → Except (Option DialError) (List UInt8) × List (List UInt8)
  | [] => (.error lastErr, [])
  | candidate :: rest =>
    if !RoutableIP candidate.ip then dialCandidates (some (.refused candidate.ip)) rest
    else
      match candidate.failure with
      | none => (.ok candidate.ip, [candidate.ip])
      | some message =>
        let (result, dialed) := dialCandidates (some (.dial message)) rest
        (result, candidate.ip :: dialed)

/-- `probeDial`. -/
def probeDial (lookup : GoString → Except DialError (List Candidate)) (address : GoString) :
    Except DialError (List UInt8) × List (List UInt8) :=
  match SplitHostPort address with
  | .error e => (.error e, [])
  | .ok (host, _) =>
    match lookup host with
    | .error e => (.error e, [])
    | .ok resolved =>
      match dialCandidates none resolved with
      | (.ok ip, dialed) => (.ok ip, dialed)
      | (.error lastErr, dialed) => (.error (lastErr.getD (.noAddress host)), dialed)

end Purels.Security
