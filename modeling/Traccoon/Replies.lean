import Traccoon.Getpeers

/-!
# What a reply says

A tracker's reply is a bencoded dictionary. `describe` is what `getpeers` prints about it, told from its entries alone: there are no
offsets in it, and no buffer. It is told for any reading of numbers, since `benc_int_value` reads some of them wrong. The source asks for
the length of what it takes for a string without a look at its type; a length of -1 is then an enormous `size_t`, and the bytes written end
behind the buffer.
-/

namespace Traccoon

open CString Bencode

namespace Getpeers

/-- What `benc_int_value` makes of a value. One digit without a sign is not enough for a number. -/
def numberOf (defval : Int) : Value → Int
  | .int n =>
    if (minus n.neg).length + n.digits.length ≤ 1 then defval
    else int32 (max (-9223372036854775808) (min 9223372036854775807 n.toInt))
  | _ => defval

/-- The number that a value says. What is no number is printed as -1. -/
def meant : Value → Int
  | .int n => n.toInt
  | _ => -1

/-- A number of two characters at least, which an `int` holds. -/
def Legible (n : Numeral) : Prop := 2 ≤ (minus n.neg).length + n.digits.length ∧ IsInt32 n.toInt

instance (n : Numeral) : Decidable (Legible n) := inferInstanceAs (Decidable (_ ∧ _))

/-- The value is such a number, or no number at all. -/
def Value.Legible : Value → Prop
  | .int n => Getpeers.Legible n
  | _ => True

instance : DecidablePred Value.Legible
  | .int n => inferInstanceAs (Decidable (Getpeers.Legible n))
  | .str _ => isTrue trivial
  | .list _ => isTrue trivial
  | .dict _ => isTrue trivial

/-- The bytes written of a value. -/
def bytesOf : Value → Walk Bytes
  | .str s => .ok s
  | _ => .error .fault

/-- What follows the port of a peer. -/
def describePeerId : Option Value → Walk (List Line)
  | some id => do
    let s ← bytesOf id
    pure [.text (ascii " "), .text s]
  | none => pure []

/-- An element of a list of peers. -/
def describePeer (read : Value → Int) (v : Value) : Walk (List Line) :=
  match v.kind with
  | .dict =>
    match v.get? (ascii "ip"), v.get? (ascii "port") with
    | some ip, some port => do
      let addr ← bytesOf ip
      let peerId ← describePeerId (v.get? (ascii "peer id"))
      pure ([.text (ascii "\t\t"), .text addr, .text (ascii ":" ++ decimalInt (read port))] ++ peerId ++
        [.text (ascii "\n")])
    | _, _ => pure [.text (ascii "Incomplete peer dictionary\n")]
  | _ => pure [.text (ascii "Invalid data received\n")]

/-- A string of peers, six bytes each. -/
def describeRecords (inet : Inet) : Bytes → List Line
  | b0 :: b1 :: b2 :: b3 :: hi :: lo :: s => .peer (inet.ntop4 (ipv4 b0 b1 b2 b3)) (ntohs hi lo) :: describeRecords inet s
  | _ => []

/-- The value of the key `peers`. -/
def describePeers (read : Value → Int) (inet : Inet) : Option Value → Walk (List Line)
  | some (.list vs) => do
    let lines ← vs.mapM (describePeer read)
    pure (.text (ascii "\tPeers (received in non-compact format):\n") :: lines.flatten)
  | some (.str s) =>
    pure (.text (ascii "\tPeers (received in compact format):\n") ::
      if s.length % 6 ≠ 0 then [.text (ascii "Compact peer data is invalid\n")] else describeRecords inet s)
  | _ => pure [.text (ascii "Failed to read peers section of reply\n")]

/-- The value of a key that tells a number. -/
def describeNumber (read : Value → Int) (before behind : Bytes) (missing : List Line) : Option Value → List Line
  | some v => [.text (before ++ decimalInt (read v) ++ behind)]
  | none => missing

/-- The whole reply. -/
def describe (read : Value → Int) (inet : Inet) (reply : Value) : Walk (List Line) :=
  match reply.get? (ascii "failure reason") with
  | some (.str reason) => pure [.text (ascii "Tracker error: "), .text reason]
  | some _ => pure [.text (ascii "Tracker error: "), .text (ascii "Reason in invalid format")]
  | none => do
    let peers ← describePeers read inet (reply.get? (ascii "peers"))
    pure (describeNumber read (ascii "\tAnnounce interval: ") (ascii " seconds\n")
        [.text (ascii "Tracker response did not include announce interval\n")] (reply.get? (ascii "interval")) ++
      describeNumber read (ascii "\tActive Seeds: ") (ascii "\n") [] (reply.get? (ascii "complete")) ++
      describeNumber read (ascii "\tActive Peers: ") (ascii "\n") [] (reply.get? (ascii "incomplete")) ++ peers)

/-- The headers of a reply: they end where the first blank line does. -/
def Headers (headers : Bytes) : Prop := NoNul headers ∧ strstr headers (ascii "\r\n\r\n") = some (ascii "\r\n\r\n")

/-- What is written of a peer is a string, if the peer is printed at all. -/
def PeerReadable (v : Value) : Prop :=
  ∀ ip port, v.get? (ascii "ip") = some ip → v.get? (ascii "port") = some port →
    ip.kind = .str ∧ ∀ id ∈ v.get? (ascii "peer id"), id.kind = .str

/-- What is written of a reply is strings. -/
def Readable (reply : Value) : Prop :=
  reply.get? (ascii "failure reason") = none → ∀ vs, reply.get? (ascii "peers") = some (.list vs) → ∀ v ∈ vs, PeerReadable v

/-- The numbers printed of a reply are legible. -/
def NumbersLegible (reply : Value) : Prop :=
  reply.get? (ascii "failure reason") = none →
    (∀ key ∈ [ascii "interval", ascii "complete", ascii "incomplete"], ∀ v ∈ reply.get? key, Value.Legible v) ∧
    ∀ vs, reply.get? (ascii "peers") = some (.list vs) → ∀ v ∈ vs, ∀ port ∈ v.get? (ascii "port"), Value.Legible port

end Getpeers

end Traccoon
