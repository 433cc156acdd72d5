import Traccoon.Theorems.PeerReply

/-!
# The two forms of one reply

The compact and the plain reply to an announce name the same peers exactly when every port delivered is a 16-bit number
(`samePeers_iff`): the port of an announce is stored unchecked, printed whole in one form and cut to its low 16 bits in the other.
-/

namespace Traccoon

open CString Bencode PeerReplyAux PeerReplyExample

/-- The records that a compact string of the given address size holds; the second argument counts records. -/
def records (k : Nat) : Nat → Bytes → List (Vector UInt8 k × Int)
  | 0, _ => []
  | n + 1, s =>
    if h : k ≤ s.length then
      match s.drop k with
      | hi :: lo :: rest => (⟨(s.take k).toArray, by simp [h]⟩, ntohs hi lo) :: records k n rest
      | _ => []
    else []

/-- The address text and port of an entry of a list. -/
def entryPair (v : Value) : Option (Bytes × Int) :=
  match v.get? (ascii "ip"), v.get? (ascii "port") with
  | some (.str ip), some (.int port) => some (ip, port.toInt)
  | _, _ => none

/-- The addresses, as text, and ports that a reply names. -/
def valuePairs (inet : Inet) (v : Value) : Option (List (Bytes × Int)) :=
  match v.get? (ascii "peers") with
  | some (.str s) =>
    some ((records 4 s.length s).map (fun p => (inet.ntop4 p.1, p.2)) ++
      match v.get? (ascii "peers_ipv6") with
      | some (.str s) => (records 16 s.length s).map (fun p => (inet.ntop6 p.1, p.2))
      | _ => [])
  | some (.list vs) => vs.mapM entryPair
  | _ => none

/-- The body of a reply names these addresses and ports. -/
def Denotes (inet : Inet) (body : Bytes) (pairs : List (Bytes × Int)) : Prop :=
  ∃ v : Value, body = v.encode ∧ valuePairs inet v = some pairs

/-- Two bodies name the same multiset of addresses and ports. -/
def SamePeers (inet : Inet) (body body' : Bytes) : Prop :=
  ∃ pairs pairs', Denotes inet body pairs ∧ Denotes inet body' pairs' ∧ pairs.Perm pairs'

namespace CompactAux

variable {inet : Inet} {ar : AnnounceRequest}

/-- A body has one reading. -/
theorem denotes_encode_iff {v : Value} {pairs : List (Bytes × Int)} :
    Denotes inet v.encode pairs ↔ valuePairs inet v = some pairs := by
  constructor
  · intro h
    obtain ⟨w, hw, hp⟩ := h
    rwa [encode_injective hw]
  · intro h
    exact ⟨v, rfl, h⟩

theorem records_cons {k : Nat} (n : Nat) (a : Vector UInt8 k) (port : Int) (rest : Bytes) :
    records k (n + 1) (a.toList ++ htons port ++ rest) = (a, port % 65536) :: records k n rest := by
  obtain ⟨hi, lo, hp, hv⟩ := ntohs_htons port
  have hdrop : (a.toList ++ htons port ++ rest).drop k = hi :: lo :: rest := by
    rw [List.append_assoc, List.drop_left' (by simp), hp]
    rfl
  have htake : (a.toList ++ htons port ++ rest).take k = a.toList := by
    rw [List.append_assoc, List.take_left' (by simp)]
  have hle : k ≤ (a.toList ++ htons port ++ rest).length := by
    simp only [List.length_append, Vector.length_toList]
    omega
  simp only [records, hle, dif_pos, hdrop, htake, hv]
  simp [Vector.toList]

/-- The records of a run of rows name the rows' addresses, and their ports cut to 16 bits. -/
theorem records_rows {k : Nat} (ntop : Vector UInt8 k → Bytes) (record : PeerRow → Bytes) (rows : List PeerRow)
    (h : ∀ r ∈ rows, ∃ a, r.ip = ntop a ∧ record r = a.toList ++ htons r.port) : ∀ n, rows.length ≤ n →
    (records k n (rows.flatMap record)).map (fun p => (ntop p.1, p.2)) = rows.map (fun r => (r.ip, r.port % 65536)) := by
  induction rows with
  | nil =>
    intro n _
    cases n with
    | zero => rfl
    | succ n =>
      unfold records
      split
      · rename_i hk
        simp
      · rfl
  | cons r rows ih =>
    intro n hn
    obtain ⟨n, rfl⟩ := Nat.exists_eq_succ_of_ne_zero (show n ≠ 0 by simp at hn; omega)
    obtain ⟨a, hip, hrec⟩ := h r (by simp)
    rw [List.flatMap_cons, hrec, records_cons, List.map_cons, List.map_cons, hip,
      ih (fun x hx => h x (by simp [hx])) n (by simpa using hn)]

theorem entryPair_entryValue (noPeerId : Bool) (r : PeerRow) : entryPair (entryValue noPeerId r) = some (r.ip, r.port) := by
  have hkey : (ascii "ip" == ascii "port") = false := by decide
  simp [entryPair, entryValue, Value.get?, hkey, toInt_ofInt]

theorem mapM_entryPair (noPeerId : Bool) (rows : List PeerRow) :
    (rows.map (entryValue noPeerId)).mapM entryPair = some (rows.map fun r => (r.ip, r.port)) := by
  induction rows with
  | nil => rfl
  | cons r rows ih =>
    rw [List.map_cons, List.mapM_cons, entryPair_entryValue, ih]
    rfl

/-- What a plain reply names. -/
theorem valuePairs_plain (hc : ar.compact = false) (interval : Int) (rows : List PeerRow) :
    valuePairs inet (replyValue inet interval ar rows) = some (rows.map fun r => (r.ip, r.port)) := by
  have hkey : (ascii "interval" == ascii "peers") = false := by decide
  have hpeers : (replyValue inet interval ar rows).get? (ascii "peers") = some (.list (rows.map (entryValue ar.noPeerId))) := by
    simp [Value.get?, replyValue, hkey, peersValue, hc]
  simp only [valuePairs, hpeers, mapM_entryPair]

/-- What a compact reply names: the same addresses, IPv4 first, with the ports cut to 16 bits. -/
theorem valuePairs_compact (hi : inet.Lawful) (hc : ar.compact = true) (interval : Int) {rows : List PeerRow}
    (hrows : ∀ r ∈ rows, StoredColumns inet r) :
    valuePairs inet (replyValue inet interval ar rows) =
      some ((rows4 rows ++ rows6 rows).map fun r => (r.ip, r.port % 65536)) := by
  have hk1 : (ascii "interval" == ascii "peers") = false := by decide
  have hk2 : (ascii "interval" == ascii "peers_ipv6") = false := by decide
  have hk3 : (ascii "peers" == ascii "peers_ipv6") = false := by decide
  have hpeers : (replyValue inet interval ar rows).get? (ascii "peers") =
      some (.str ((rows4 rows).flatMap (record4 inet))) := by
    simp [Value.get?, replyValue, hk1, peersValue, hc]
  have h4 := length_records4 hi fun r hr => (hrows r hr).address
  have h6 := length_records6 hi fun r hr => (hrows r hr).address
  have hr4 := records_rows inet.ntop4 (record4 inet) (rows4 rows) (fun r hr => by
    obtain ⟨hm, hp⟩ := List.mem_filter.1 hr
    exact record4_stored hi (hrows r hm).address (by simpa using hp)) ((rows4 rows).flatMap (record4 inet)).length (by omega)
  have hr6 := records_rows inet.ntop6 (record6 inet) (rows6 rows) (fun r hr => by
    obtain ⟨hm, hp⟩ := List.mem_filter.1 hr
    exact record6_stored hi (hrows r hm).address (by simpa using hp)) ((rows6 rows).flatMap (record6 inet)).length (by omega)
  by_cases h0 : rows6 rows = []
  · have hnone : (replyValue inet interval ar rows).get? (ascii "peers_ipv6") = none := by
      simp [Value.get?, replyValue, hk2, hk3, hc, h0]
    simp only [valuePairs, hpeers, hnone, hr4, h0, List.append_nil]
  · have hsome : (replyValue inet interval ar rows).get? (ascii "peers_ipv6") =
        some (.str ((rows6 rows).flatMap (record6 inet))) := by
      simp [Value.get?, replyValue, hk2, hk3, hc, h0]
    simp only [valuePairs, hpeers, hsome, hr4, hr6, List.map_append]

/-- Cutting the ports to 16 bits leaves the multiset alone exactly when they are 16-bit numbers. -/
theorem perm_cut_ports_iff (rows : List PeerRow) :
    (rows.map fun r => (r.ip, r.port % 65536)).Perm (rows.map fun r => (r.ip, r.port)) ↔
      ∀ r ∈ rows, 0 ≤ r.port ∧ r.port < 65536 := by
  constructor
  · intro h r hr
    obtain ⟨x, -, hx⟩ := List.mem_map.1 (h.mem_iff.2 (List.mem_map.2 ⟨r, hr, rfl⟩))
    have hport := (Prod.mk.inj hx).2
    omega
  · intro h
    rw [List.map_congr_left fun r hr => by rw [Int.emod_eq_of_lt (h r hr).1 (h r hr).2]]

end CompactAux

open CompactAux

/-- Two announces that differ only in the compact flag, for a known torrent, and that see the same stored rows: the compact and the
plain reply name the same peers exactly when every row delivered has a 16-bit port. -/
theorem samePeers_iff (inet : Inet) (hi : inet.Lawful) (interval : Int) (h32 : IsInt32 interval) (ar : AnnounceRequest)
    (har : Builds inet ar) (e : TrackEnv) (hrows : ∀ r, PeerStep.row r ∈ e.steps → StoredRow inet r) (db : Db)
    (hq : QueryRuns ar e db) (compactBody plainBody : Bytes)
    (hc : SendsBody inet { ar with compact := true } interval e db compactBody)
    (hp : SendsBody inet { ar with compact := false } interval e db plainBody) :
    SamePeers inet compactBody plainBody ↔ ∀ r ∈ delivered ar e.steps, 0 ≤ r.port ∧ r.port < 65536 := by
  have hcols := delivered_columns ar hi hrows
  have hbody := (sendsBody_iff hi (built_setCompact har.built true) h32 (queryRuns_setCompact hq true) hcols _).1 hc
  have hbody' := (sendsBody_iff hi (built_setCompact har.built false) h32 (queryRuns_setCompact hq false) hcols _).1 hp
  change compactBody = (replyValue inet interval _ (delivered ar e.steps)).encode at hbody
  change plainBody = (replyValue inet interval _ (delivered ar e.steps)).encode at hbody'
  generalize delivered ar e.steps = rows at hcols hbody hbody'
  have hperm : (rows4 rows ++ rows6 rows).Perm rows := List.filter_append_perm (fun r : PeerRow => r.protover == 4) rows
  have hcut := hperm.map fun r => (r.ip, r.port % 65536)
  rw [← perm_cut_ports_iff]
  constructor
  · intro h
    obtain ⟨pairs, pairs', hd, hd', hpp⟩ := h
    rw [hbody, denotes_encode_iff, valuePairs_compact hi rfl interval hcols] at hd
    rw [hbody', denotes_encode_iff, valuePairs_plain rfl] at hd'
    obtain rfl := Option.some.inj hd
    obtain rfl := Option.some.inj hd'
    exact hcut.symm.trans hpp
  · intro h
    refine ⟨_, _, ?_, ?_, hcut.trans h⟩
    · rw [hbody, denotes_encode_iff, valuePairs_compact hi rfl interval hcols]
    · rw [hbody', denotes_encode_iff, valuePairs_plain rfl]

/-- A port that fits 16 bits is named by both forms. -/
theorem samePeers_iff_small_port :
    SamePeers PlainInet.inet (ascii "d8:intervali300e5:peers6:" ++ [10, 0, 0, 2, 26, 226] ++ ascii "e")
      (ascii "d8:intervali300e5:peersld2:ip8:10.0.0.24:porti6882e7:peer id20:-TC0010-000000000001eee") := by
  have hcols := delivered_columns (announce "10.0.0.1" 6881) PlainInet.lawful (rows_stored builds_second)
  refine (samePeers_iff PlainInet.inet PlainInet.lawful 300 ⟨by decide, by decide⟩ _ builds_first (env 6882)
    (rows_stored builds_second) db (queryRuns 6882) _ _ ?_ ?_).2 ?_
  · rw [sendsBody_iff PlainInet.lawful (built_setCompact builds_first.built true) ⟨by decide, by decide⟩
      (queryRuns_setCompact (queryRuns 6882) true) hcols]
    decide
  · rw [sendsBody_iff PlainInet.lawful (built_setCompact builds_first.built false) ⟨by decide, by decide⟩
      (queryRuns_setCompact (queryRuns 6882) false) hcols]
    decide
  · decide

/-- A client that announced port 70000 is handed out with port 70000 in a plain reply, and with port 4464 in a compact one. -/
theorem not_samePeers_overlong_port :
    ∃ compactBody plainBody,
      SendsBody PlainInet.inet { announce "10.0.0.1" 6881 with compact := true } 300 (env 70000) db compactBody ∧
      SendsBody PlainInet.inet { announce "10.0.0.1" 6881 with compact := false } 300 (env 70000) db plainBody ∧
      ¬SamePeers PlainInet.inet compactBody plainBody := by
  have hcols := delivered_columns (announce "10.0.0.1" 6881) PlainInet.lawful (rows_stored builds_overlong_port)
  refine ⟨_, _, (sendsBody_iff PlainInet.lawful (built_setCompact builds_first.built true) ⟨by decide, by decide⟩
      (queryRuns_setCompact (queryRuns 70000) true) hcols _).2 rfl,
    (sendsBody_iff PlainInet.lawful (built_setCompact builds_first.built false) ⟨by decide, by decide⟩
      (queryRuns_setCompact (queryRuns 70000) false) hcols _).2 rfl, ?_⟩
  intro h
  obtain ⟨pairs, pairs', hd, hd', hp⟩ := h
  rw [denotes_encode_iff] at hd hd'
  have hpairs : pairs = [(ascii "10.0.0.2", 4464)] := Option.some.inj (hd.symm.trans (by decide))
  have hpairs' : pairs' = [(ascii "10.0.0.2", 70000)] := Option.some.inj (hd'.symm.trans (by decide))
  rw [hpairs, hpairs'] at hp
  exact absurd hp (by decide)

end Traccoon
