import Traccoon.Theorems.PeerReply
import Traccoon.Theorems.ReadReplies

/-!
# The compact reply, read by `getpeers`

The tracker writes six bytes for an IPv4 peer and `getpeers` reads six bytes again: the two share no code. Whatever the bytes are, the
lines that `getpeers` prints name the addresses and ports of the rows delivered, in their order (`getpeers_reads_compact`).
-/

namespace Traccoon

open CString Bencode Getpeers PeerReplyAux

/-- What `getpeers` prints about a compact reply with these IPv4 rows. A single-digit interval is printed as the default. -/
def compactLines (interval : Int) (rows : List PeerRow) : List Line :=
  [.text (ascii "\nTracker response:\n"),
    .text (ascii "\tAnnounce interval: " ++ decimalInt (if interval < 0 ∨ 9 < interval then interval else -1) ++ ascii " seconds\n"),
    .text (ascii "\tPeers (received in compact format):\n")] ++ rows.map fun r => .peer r.ip r.port

namespace CompactPeersAux

open ReadRepliesAux

variable {inet : Inet} {ar : AnnounceRequest}

/-! ## What the reply says -/

/-- The records of IPv4 rows are read as their addresses and 16-bit ports. -/
theorem describeRecords_records (hi : inet.Lawful) : ∀ rows : List PeerRow,
    (∀ r ∈ rows, FromSockAddr inet r.ip r.protover ∧ r.protover = 4) →
    describeRecords inet (rows.flatMap (record4 inet)) = rows.map fun r => .peer r.ip (r.port % 65536)
  | [], _ => rfl
  | r :: rows, h => by
    have ih := describeRecords_records hi rows fun x hx => h x (by simp [hx])
    obtain ⟨haddr, h4⟩ := h r (by simp)
    obtain ⟨a, hip, hrec⟩ := record4_stored hi haddr h4
    obtain ⟨high, low, hport, hval⟩ := ntohs_htons r.port
    obtain ⟨b0, b1, b2, b3, ha⟩ : ∃ b0 b1 b2 b3, a.toList = [b0, b1, b2, b3] := List.length_eq_four.1 (by simp)
    have hvec : ipv4 b0 b1 b2 b3 = a := Vector.toList_inj.1 (ha.symm ▸ rfl)
    rw [List.flatMap_cons, hrec, hport, ha, List.map_cons, ← ih, ← hval, hip, ← hvec]
    rfl

/-- The entries of a reply that lists rows. -/
theorem replyValue_get (interval : Int) (ar : AnnounceRequest) (rows : List PeerRow) :
    (replyValue inet interval ar rows).get? (ascii "failure reason") = none ∧
    (replyValue inet interval ar rows).get? (ascii "interval") = some (.int (Numeral.ofInt interval)) ∧
    (replyValue inet interval ar rows).get? (ascii "complete") = none ∧
    (replyValue inet interval ar rows).get? (ascii "incomplete") = none ∧
    (replyValue inet interval ar rows).get? (ascii "peers") = some (peersValue inet ar rows) := by
  rw [replyValue]
  split
  · exact ⟨rfl, rfl, rfl, rfl, rfl⟩
  · exact ⟨rfl, rfl, rfl, rfl, rfl⟩

/-- The reply to a compact announce says the interval, and the peers with an IPv4 address. -/
theorem describe_compact (hi : inet.Lawful) (hc : ar.compact = true) {interval : Int} (h32 : IsInt32 interval) {rows : List PeerRow}
    (hrows : ∀ r ∈ rows, FromSockAddr inet r.ip r.protover) (hports : ∀ r ∈ rows, r.protover = 4 → 0 ≤ r.port ∧ r.port < 65536) :
    (describe (numberOf (-1)) inet (replyValue inet interval ar rows)).map (.text (ascii "\nTracker response:\n") :: ·) =
      .ok (compactLines interval (rows4 rows)) := by
  have hrows4 : ∀ r ∈ rows4 rows, FromSockAddr inet r.ip r.protover ∧ r.protover = 4 := by
    intro r hr
    obtain ⟨hm, h4⟩ := List.mem_filter.1 hr
    exact ⟨hrows r hm, by simpa using h4⟩
  have hmod : ∀ r ∈ rows4 rows, Line.peer r.ip (r.port % 65536) = .peer r.ip r.port := by
    intro r hr
    obtain ⟨hm, h4⟩ := List.mem_filter.1 hr
    obtain ⟨h0, h1⟩ := hports r hm (by simpa using h4)
    rw [Int.emod_eq_of_lt h0 h1]
  have hsize : ((rows4 rows).flatMap (record4 inet)).length % 6 = 0 := by
    rw [length_records4 hi hrows]
    omega
  obtain ⟨hreason, hinterval, hcomplete, hincomplete, hpeers⟩ := @replyValue_get inet interval ar rows
  simp only [describe, hreason, hinterval, hcomplete, hincomplete, hpeers, describePeers, peersValue, hc, if_true, hsize,
    describeRecords_records hi _ hrows4, List.map_congr_left hmod, describeNumber, numberOf_ofInt h32]
  rfl

/-! ## The whole reply -/

theorem headers_ok : Headers (sendHttpHeaders (ascii "200 OK") standardHeader).flatten := ⟨by decide, by decide⟩

/-- The whole reply to a compact announce. -/
theorem parseResponse_compact (hi : inet.Lawful) (hc : ar.compact = true) {interval : Int} (h32 : IsInt32 interval)
    {rows : List PeerRow} (hcount : rows.length ≤ 50) (hrows : ∀ r ∈ rows, FromSockAddr inet r.ip r.protover)
    (hports : ∀ r ∈ rows, r.protover = 4 → 0 ≤ r.port ∧ r.port < 65536) (rest : Bytes) {fuel : Nat}
    (hf : (replyValue inet interval ar rows).encode.length ≤ fuel) :
    parseResponse inet ((sendHttpHeaders (ascii "200 OK") standardHeader).flatten ++
      ((replyValue inet interval ar rows).encode ++ 0 :: rest)) fuel = .ok (compactLines interval (rows4 rows), 0) := by
  have hlen := length_replyValue_compact hi hc h32 hcount hrows
  have hdescribe := describe_compact hi hc h32 hrows hports
  have hpeers := (@replyValue_get inet interval ar rows).2.2.2.2
  obtain ⟨es, hes⟩ : ∃ es, replyValue inet interval ar rows = .dict es := ⟨_, rfl⟩
  rw [hes] at hlen hf hdescribe hpeers ⊢
  -- the peers are no list
  have hlist : ∀ vs, (Value.dict es).get? (ascii "peers") = some (.list vs) → 2 * (Value.dict es).encode.length ≤ fuel := by
    intro vs hvs
    rw [hpeers, peersValue, if_pos hc] at hvs
    cases hvs
  rw [parseResponse_encode inet headers_ok es hlen (0 :: rest) hf hlist]
  cases hd : describe (numberOf (-1)) inet (.dict es) with
  | ok lines =>
    rw [hd] at hdescribe
    exact congrArg _ (congrArg (·, 0) (Except.ok.inj hdescribe))
  | error stop =>
    rw [hd] at hdescribe
    cases hdescribe

/-- Rows none of which is the requester are delivered as they are, if they are not too many. -/
theorem delivered_rows {rows : List PeerRow} (hself : ∀ r ∈ rows, isRequester ar r = false) (hn : (rows.length : Int) ≤ ar.numwant) :
    delivered ar (rows.map .row) = rows := by
  have hfetched : ∀ (rows : List PeerRow) (n : Nat), rows.length ≤ n → fetched (rows.map .row) n = rows := by
    intro rows
    induction rows with
    | nil =>
      intro n _
      rfl
    | cons r rows ih =>
      intro n hle
      obtain ⟨n, rfl⟩ : ∃ k, n = k + 1 := ⟨n - 1, by simp only [List.length_cons] at hle; omega⟩
      rw [List.map_cons, fetched, ih n (by simpa using hle)]
  rw [delivered, hfetched rows _ (by omega), List.filter_eq_self]
  intro r hr
  rw [hself r hr]
  rfl

end CompactPeersAux

open CompactPeersAux

/-- For every compact announce that `parseSocket` can build, for a known torrent, and every sequence of answers to the peer query whose
rows hold addresses written by `inet_ntop` and, for IPv4, ports of 16 bits: `getpeers` reads the whole of what `track` sends, and
prints the addresses and ports of the IPv4 rows delivered, in their order. Rows none of which is the requester are all delivered. -/
theorem getpeers_reads_compact (inet : Inet) (hi : inet.Lawful) (interval : Int) (h32 : IsInt32 interval) (ar : AnnounceRequest)
    (har : Builds inet ar) (hc : ar.compact = true) (e : TrackEnv)
    (haddr : ∀ r, PeerStep.row r ∈ e.steps → FromSockAddr inet r.ip r.protover)
    (hports : ∀ r, PeerStep.row r ∈ e.steps → r.protover = 4 → 0 ≤ r.port ∧ r.port < 65536) (db : Db) (hq : QueryRuns ar e db) :
    (∃ effects, track inet ar interval e db = some effects ∧
      ∀ rest fuel, effects.sent.flatten.length ≤ fuel →
        parseResponse inet (effects.sent.flatten ++ 0 :: rest) fuel =
          .ok (compactLines interval (rows4 (delivered ar e.steps)), 0)) ∧
    ∀ rows, e.steps = rows.map .row → (∀ r ∈ rows, isRequester ar r = false) → (rows.length : Int) ≤ ar.numwant →
      delivered ar e.steps = rows := by
  constructor
  · have hb := har.built
    obtain ⟨hn1, hn2⟩ := hb.numwant
    have hrows : ∀ r ∈ delivered ar e.steps, FromSockAddr inet r.ip r.protover := by
      intro r hr
      exact haddr r (mem_delivered hr)
    have hcount := length_delivered_le ar e.steps
    simp only [maxpeersSent] at hn2
    obtain ⟨effects, ht, hs⟩ := track_pieces hi hb hq interval
    refine ⟨effects, ht, ?_⟩
    intro rest fuel hf
    have hreply : effects.sent.flatten = (sendHttpHeaders (ascii "200 OK") standardHeader).flatten ++
        (replyValue inet interval ar (delivered ar e.steps)).encode := by
      rw [hs, List.flatten_append, peerReply_compact hi hc h32 e.steps (by omega) hn2 hrows]
    rw [hreply, List.length_append] at hf
    rw [hreply, List.append_assoc]
    refine parseResponse_compact hi hc h32 (by omega) hrows ?_ rest (by omega)
    intro r hr
    exact hports r (mem_delivered hr)
  · intro rows hsteps hself hn
    rw [hsteps]
    exact delivered_rows hself hn

namespace CompactPeersExample

/-- Addresses and ports whose bytes look like the end of a string, a colon, a digit and a closing letter, and a row that is not IPv4. -/
def rows : List PeerRow :=
  [{ peerId := [], ip := PlainInet.ntop4 #v[0, 0, 0, 0], port := 0, protover := 4 },
    { peerId := [], ip := PlainInet.ntop6 (Vector.replicate 16 171), port := 70000, protover := 6 },
    { peerId := [], ip := PlainInet.ntop4 #v[101, 58, 49, 101], port := 65535, protover := 4 }]

def env : TrackEnv :=
  { torrent := .ok 0, prepare := sqliteOk, bind := sqliteOk, steps := rows.map .row, first := .ok 0, again := .ok 0 }

/-- The announce that asks for them. -/
def request : Bytes :=
  ascii "GET /announce?info_hash=aaaaaaaaaaaaaaaaaaaa&peer_id=-TC0010-000000000001&port=6881&compact=1 HTTP/1.1"

def announce : AnnounceRequest := { PeerReplyExample.announce "10.0.0.1" 6881 with compact := true }

theorem builds_announce : Builds PlainInet.inet announce :=
  ⟨PeerReplyExample.stack, some request, some (.in4 #v[10, 0, 0, 1]), by decide⟩

theorem queryRuns_announce : QueryRuns announce env PeerReplyExample.db :=
  queryRuns_setCompact (PeerReplyExample.queryRuns 6882) true

end CompactPeersExample

open CompactPeersExample

/-- The three rows are delivered, and the two IPv4 ones are read back. -/
theorem getpeers_reads_compact_zeros :
    ∃ effects, track PlainInet.inet announce 1800 env PeerReplyExample.db = some effects ∧
      ∀ rest fuel, effects.sent.flatten.length ≤ fuel →
        parseResponse PlainInet.inet (effects.sent.flatten ++ 0 :: rest) fuel =
          .ok ([.text (ascii "\nTracker response:\n"), .text (ascii "\tAnnounce interval: 1800 seconds\n"),
            .text (ascii "\tPeers (received in compact format):\n"), .peer (ascii "0.0.0.0") 0,
            .peer (ascii "101.58.49.101") 65535], 0) := by
  have hrow : ∀ r, PeerStep.row r ∈ env.steps → r ∈ rows := by
    intro r hr
    obtain ⟨x, hx, hxr⟩ := List.mem_map.1 hr
    obtain rfl := PeerStep.row.inj hxr
    exact hx
  have h := getpeers_reads_compact PlainInet.inet PlainInet.lawful 1800 ⟨by decide, by decide⟩ announce builds_announce rfl env
    (by
      intro r hr
      have hall : ∀ r ∈ rows, FromSockAddr PlainInet.inet r.ip r.protover := by
        simp only [rows, List.mem_cons, List.not_mem_nil, or_false, forall_eq_or_imp, forall_eq]
        exact ⟨Or.inl ⟨#v[0, 0, 0, 0], rfl, rfl⟩, Or.inr ⟨Vector.replicate 16 171, rfl, rfl⟩,
          Or.inl ⟨#v[101, 58, 49, 101], rfl, rfl⟩⟩
      exact hall r (hrow r hr))
    (by
      intro r hr
      have hall : ∀ r ∈ rows, r.protover = 4 → 0 ≤ r.port ∧ r.port < 65536 := by decide
      exact hall r (hrow r hr))
    PeerReplyExample.db queryRuns_announce
  have hdelivered := h.2 rows rfl (by decide) (by decide)
  have hlines : compactLines 1800 (rows4 rows) =
      [.text (ascii "\nTracker response:\n"), .text (ascii "\tAnnounce interval: 1800 seconds\n"),
        .text (ascii "\tPeers (received in compact format):\n"), .peer (ascii "0.0.0.0") 0,
        .peer (ascii "101.58.49.101") 65535] := by decide
  rw [hdelivered, hlines] at h
  exact h.1

end Traccoon
