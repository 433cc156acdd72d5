import Traccoon.Lib.CString

/-!
# `traccoon.c`: opening the listening socket

What `getaddrinfo` gives is a list, linked by `ai_next`; a pointer into it is the number of an entry, `none` is NULL. How the calls of
`socket` are answered is an input. The loop is bounded by nothing; the model counts its rounds against a fuel.
-/

namespace Traccoon

open CString

/-- `struct addrinfo`, in the fields that `main` reads. -/
structure AddrInfo where
  aiFamily : Int
  aiSocktype : Int
  aiProtocol : Int
  aiAddr : Bytes
  deriving DecidableEq

/-- What `socket` returns: to the call of this number, for this family, type and protocol. -/
abbrev SocketAnswers := Nat → Int → Int → Int → Int

/-- The variables of the loop, and the entries whose family, type and protocol `socket` has been called with, one for each call. -/
structure Opening where
  addrIt : Option Nat
  servsock : Int
  tried : List Nat
  deriving DecidableEq

/-- The entry of number `i`, as a pointer: NULL behind the last. -/
def entryAt (servinfo : List AddrInfo) (i : Nat) : Option Nat := if i < servinfo.length then some i else none

/-- `addr_it=servinfo`; `servsock` has not been set. -/
def Opening.start (servinfo : List AddrInfo) (servsock : Int) : Opening :=
  { addrIt := entryAt servinfo 0, servsock := servsock, tried := [] }

/-- `for(addr_it=servinfo;addr_it;addr_it=servinfo->ai_next)`. The body and the step look at `servinfo`, the first entry. -/
def openSocket (socket : SocketAnswers) (servinfo : List AddrInfo) : Nat → Opening → Option Opening
  | 0, _ => none
  | fuel + 1, s =>
    match s.addrIt with
    | none => some s
    | some _ => do
      let first ← servinfo[0]?
      let servsock := socket s.tried.length first.aiFamily first.aiSocktype first.aiProtocol
      let tried := s.tried ++ [0]
      if servsock ≠ -1 then pure { addrIt := s.addrIt, servsock := servsock, tried := tried }
      else openSocket socket servinfo fuel { addrIt := entryAt servinfo 1, servsock := servsock, tried := tried }

/-- The address that `bind` is called with. -/
def bindAddr (servinfo : List AddrInfo) (s : Opening) : Option Bytes := s.addrIt.bind fun i => servinfo[i]?.map AddrInfo.aiAddr

end Traccoon
