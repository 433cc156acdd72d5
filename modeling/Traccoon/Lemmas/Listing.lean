import Traccoon.Lemmas.Requests
import Traccoon.Lemmas.BencComplete

/-!
# What the loop over the peers gathers

The loop of `track` is a fold over the rows it fetches, and each fold has a closed form: the entries of the delivered rows in a
reply that is not compact, the records of the two address families in a compact one. `replyValue` is the bencoded value such a
reply should be; the pieces sent are its encoding.
-/

namespace Traccoon

open CString Bencode

/-- The rows that the loop fetches in at most `n` iterations: those before the first answer that is no row. -/
def fetched : List PeerStep → Nat → List PeerRow
  | .row r :: steps, n + 1 => r :: fetched steps n
  | _, _ => []

/-- The rows that the loop delivers: those fetched that are not the requester itself. -/
def delivered (ar : AnnounceRequest) (steps : List PeerStep) : List PeerRow :=
  (fetched steps ar.numwant.toNat).filter (fun r => !isRequester ar r)

/-- A record of the compact format for an IPv4 row: the address and the port, in network order. -/
def record4 (inet : Inet) (r : PeerRow) : Bytes :=
  match inet.pton4 r.ip with
  | some a => a.toList ++ htons r.port
  | none => []

/-- A record of the compact format for an IPv6 row. -/
def record6 (inet : Inet) (r : PeerRow) : Bytes :=
  match inet.pton6 r.ip with
  | some a => a.toList ++ htons r.port
  | none => []

/-- The rows that a compact reply lists as IPv4. -/
def rows4 (rows : List PeerRow) : List PeerRow := rows.filter (fun r => r.protover == 4)

/-- The other rows. -/
def rows6 (rows : List PeerRow) : List PeerRow := rows.filter (fun r => r.protover != 4)

/-- The dictionary for a peer in a list that is not compact. -/
def entryValue (noPeerId : Bool) (r : PeerRow) : Value :=
  .dict ([(ascii "ip", .str r.ip), (ascii "port", .int (Numeral.ofInt r.port))] ++
    if noPeerId then [] else [(ascii "peer id", .str r.peerId)])

/-- The value of the key `peers`. -/
def peersValue (inet : Inet) (ar : AnnounceRequest) (rows : List PeerRow) : Value :=
  if ar.compact then .str ((rows4 rows).flatMap (record4 inet)) else .list (rows.map (entryValue ar.noPeerId))

/-- The reply that lists these rows. -/
def replyValue (inet : Inet) (interval : Int) (ar : AnnounceRequest) (rows : List PeerRow) : Value :=
  .dict ([(ascii "interval", .int (Numeral.ofInt interval)), (ascii "peers", peersValue inet ar rows)] ++
    if ar.compact && rows6 rows != [] then [(ascii "peers_ipv6", .str ((rows6 rows).flatMap (record6 inet)))] else [])

variable {inet : Inet} {ar : AnnounceRequest}

/-! ## The loop -/

theorem mem_fetched {steps : List PeerStep} {n : Nat} {r : PeerRow} (h : r ∈ fetched steps n) : PeerStep.row r ∈ steps := by
  induction steps generalizing n with
  | nil => simp [fetched] at h
  | cons s steps ih =>
    cases s with
    | row x =>
      cases n with
      | zero => simp [fetched] at h
      | succ n =>
        rcases List.mem_cons.1 h with rfl | h
        · exact List.mem_cons_self
        · exact List.mem_cons_of_mem _ (ih h)
    | done => simp [fetched] at h
    | fails c => simp [fetched] at h

theorem length_fetched_le (steps : List PeerStep) (n : Nat) : (fetched steps n).length ≤ n := by
  induction steps generalizing n with
  | nil => simp [fetched]
  | cons s steps ih =>
    cases s with
    | row x =>
      cases n with
      | zero => simp [fetched]
      | succ n =>
        have := ih n
        simp only [fetched, List.length_cons]
        omega
    | done => simp [fetched]
    | fails c => simp [fetched]

theorem mem_delivered {steps : List PeerStep} {r : PeerRow} (h : r ∈ delivered ar steps) : PeerStep.row r ∈ steps :=
  mem_fetched (List.mem_filter.1 h).1

theorem length_delivered_le (ar : AnnounceRequest) (steps : List PeerStep) : (delivered ar steps).length ≤ ar.numwant.toNat :=
  (List.length_filter_le _ _).trans (length_fetched_le _ _)

/-- The loop handles the fetched rows one by one. -/
theorem peerLoop_eq_foldl (steps : List PeerStep) : ∀ (n : Nat) (i : Int) (l : Listing), i + n = ar.numwant →
    peerLoop inet ar steps i l = (fetched steps n).foldl (fun l r => pushPeer inet ar r l) l := by
  induction steps with
  | nil => intro n i l _; rfl
  | cons s steps ih =>
    intro n i l hn
    cases s with
    | row x =>
      cases n with
      | zero => simp only [peerLoop, fetched, if_neg (show ¬i < ar.numwant by omega), List.foldl_nil]
      | succ n =>
        simp only [peerLoop, fetched, if_pos (show i < ar.numwant by omega), List.foldl_cons]
        exact ih n (i + 1) _ (by omega)
    | done => rfl
    | fails c => rfl

/-- The loop does not look at the hash. -/
theorem peerLoop_infoHash (infoHash : Bytes) (steps : List PeerStep) : ∀ (i : Int) (l : Listing),
    peerLoop inet { ar with infoHash := infoHash } steps i l = peerLoop inet ar steps i l := by
  induction steps with
  | nil => intro i l; rfl
  | cons s steps ih =>
    intro i l
    cases s with
    | row r =>
      simp only [peerLoop, ih]
      rfl
    | done => rfl
    | fails c => rfl

/-- Without the compact flag, a piece is sent for each row delivered. -/
theorem foldl_pushPeer_plain (hc : ar.compact = false) (rows : List PeerRow) : ∀ l : Listing,
    rows.foldl (fun l r => pushPeer inet ar r l) l =
      { l with
        sent := l.sent ++ (rows.filter (fun r => !isRequester ar r)).map fun r =>
          cstr (snprintf trackBufSize (peerEntry ar.noPeerId r)) } := by
  induction rows with
  | nil => intro l; simp
  | cons r rows ih =>
    intro l
    rw [List.foldl_cons, ih]
    cases hr : isRequester ar r with
    | true => simp [pushPeer, hr]
    | false => simp [pushPeer, hr, hc, sendString]

/-- With it, the records of the rows delivered are gathered by address family. -/
theorem foldl_pushPeer_compact (hc : ar.compact = true) (rows : List PeerRow) : ∀ l : Listing,
    rows.foldl (fun l r => pushPeer inet ar r l) l =
      { l with
        buf4 := l.buf4 ++ (rows4 (rows.filter (fun r => !isRequester ar r))).flatMap (record4 inet)
        buf6 := l.buf6 ++ (rows6 (rows.filter (fun r => !isRequester ar r))).flatMap (record6 inet) } := by
  induction rows with
  | nil => intro l; simp [rows4, rows6]
  | cons r rows ih =>
    intro l
    rw [List.foldl_cons, ih]
    cases hr : isRequester ar r with
    | true => simp [pushPeer, hr]
    | false =>
      by_cases h4 : r.protover = 4
      · cases hp : inet.pton4 r.ip with
        | none => simp [pushPeer, hr, hc, h4, hp, rows4, rows6, record4]
        | some a => simp [pushPeer, hr, hc, h4, hp, rows4, rows6, record4]
      · cases hp : inet.pton6 r.ip with
        | none => simp [pushPeer, hr, hc, h4, hp, rows4, rows6, record6]
        | some a => simp [pushPeer, hr, hc, h4, hp, rows4, rows6, record6]

/-- What the whole loop gathers for a reply that is not compact. -/
theorem peerLoop_plain (hc : ar.compact = false) (hn : 0 ≤ ar.numwant) (steps : List PeerStep) :
    peerLoop inet ar steps 0 { sent := [], buf4 := [], buf6 := [] } =
      { sent := (delivered ar steps).map fun r => cstr (snprintf trackBufSize (peerEntry ar.noPeerId r))
        buf4 := []
        buf6 := [] } := by
  rw [peerLoop_eq_foldl steps ar.numwant.toNat 0 _ (by omega), foldl_pushPeer_plain hc]
  rfl

/-- What the whole loop gathers for a compact reply. -/
theorem peerLoop_compact (hc : ar.compact = true) (hn : 0 ≤ ar.numwant) (steps : List PeerStep) :
    peerLoop inet ar steps 0 { sent := [], buf4 := [], buf6 := [] } =
      { sent := []
        buf4 := (rows4 (delivered ar steps)).flatMap (record4 inet)
        buf6 := (rows6 (delivered ar steps)).flatMap (record6 inet) } := by
  rw [peerLoop_eq_foldl steps ar.numwant.toNat 0 _ (by omega), foldl_pushPeer_compact hc]
  rfl

/-! ## The rows listed -/

/-- The request that `track` prepares and the torrent id it finds, when it gets as far as the peers query. -/
def peersAsked (ar : AnnounceRequest) (e : TrackEnv) (db : Db) : Option (AnnounceRequest × Int) := do
  let ar ← prepareData ar
  let torrentid := getTorrentId db (cstr ar.infoHash) e.torrent
  if torrentid ≠ dbNosuchhash ∧ torrentid ≠ dbFailed ∧ e.prepare = sqliteOk ∧ e.bind = sqliteOk then pure (ar, torrentid) else none

/-- A row that the loop adds to the reply: not the requester's own, and in a compact reply with an address that can be converted. -/
def listable (inet : Inet) (ar : AnnounceRequest) (r : PeerRow) : Bool :=
  !isRequester ar r && (!ar.compact || if r.protover = 4 then (inet.pton4 r.ip).isSome else (inet.pton6 r.ip).isSome)

/-- The number of peers in a listing: an entry each in a reply that is not compact, a record of 6 or 18 bytes each in a compact one. -/
def Listing.peers (l : Listing) : Nat := l.sent.length + l.buf4.length / 6 + l.buf6.length / 18

variable {e : TrackEnv} {db : Db}

/-- A row that is not listed does not change what the loop gathers. -/
theorem pushPeer_of_not_listable {r : PeerRow} (h : listable inet ar r = false) (l : Listing) : pushPeer inet ar r l = l := by
  unfold listable at h
  unfold pushPeer
  cases hr : isRequester ar r with
  | true => simp
  | false =>
    simp only [hr, Bool.not_false, Bool.true_and, Bool.or_eq_false_iff, Bool.not_eq_false'] at h
    obtain ⟨hc, h⟩ := h
    simp only [Bool.false_eq_true, if_false, hc, Bool.not_true]
    split at h
    · rename_i h4
      have hnone : inet.pton4 r.ip = none := by simpa using h
      rw [if_pos h4, hnone]
    · rename_i h4
      have hnone : inet.pton6 r.ip = none := by simpa using h
      rw [if_neg h4, hnone]

theorem length_htons (port : Int) : (htons port).length = 2 := rfl

/-- A row that is listed adds an entry or a record. -/
theorem peers_pushPeer {r : PeerRow} (h : listable inet ar r = true) (l : Listing) : (pushPeer inet ar r l).peers = l.peers + 1 := by
  unfold listable at h
  unfold pushPeer
  simp only [Bool.and_eq_true, Bool.not_eq_true', Bool.or_eq_true] at h
  obtain ⟨hr, h⟩ := h
  simp only [hr, Bool.false_eq_true, if_false]
  cases hc : ar.compact with
  | false =>
    simp only [Bool.not_false, if_true, Listing.peers, sendString, List.length_append, List.length_cons, List.length_nil]
    omega
  | true =>
    simp only [hc, Bool.true_eq_false, false_or] at h
    simp only [Bool.not_true, Bool.false_eq_true, if_false]
    split
    · rename_i h4
      rw [if_pos h4] at h
      obtain ⟨a, ha⟩ := Option.isSome_iff_exists.1 h
      simp only [ha, Listing.peers, List.length_append, Vector.length_toList, length_htons]
      omega
    · rename_i h4
      rw [if_neg h4] at h
      obtain ⟨a, ha⟩ := Option.isSome_iff_exists.1 h
      simp only [ha, Listing.peers, List.length_append, Vector.length_toList, length_htons]
      omega

theorem pushPeer_of_listable {r : PeerRow} (h : listable inet ar r = true) (l : Listing) : pushPeer inet ar r l ≠ l := by
  intro heq
  have hpeers := peers_pushPeer h l
  rw [heq] at hpeers
  omega

/-- Listing rows one after another counts them. -/
theorem peers_foldl_pushPeer {rows : List PeerRow} (h : ∀ r ∈ rows, listable inet ar r = true) (l : Listing) :
    (rows.foldl (fun l r => pushPeer inet ar r l) l).peers = l.peers + rows.length := by
  induction rows generalizing l with
  | nil => rfl
  | cons r rows ih =>
    obtain ⟨hr, hrows⟩ := List.forall_mem_cons.1 h
    rw [List.foldl_cons, ih hrows, peers_pushPeer hr, List.length_cons]
    omega

/-- What the loop gathers comes from the rows listed. -/
theorem peerLoop_filter (hn : 0 ≤ ar.numwant) (steps : List PeerStep) (l : Listing) :
    peerLoop inet ar steps 0 l =
      ((fetched steps ar.numwant.toNat).filter (listable inet ar)).foldl (fun l r => pushPeer inet ar r l) l := by
  rw [peerLoop_eq_foldl steps ar.numwant.toNat 0 l (by omega)]
  generalize fetched steps ar.numwant.toNat = rows
  induction rows generalizing l with
  | nil => rfl
  | cons r rows ih =>
    cases hr : listable inet ar r with
    | true => rw [List.filter_cons_of_pos hr, List.foldl_cons, List.foldl_cons, ih]
    | false => rw [List.filter_cons_of_neg (by simp [hr]), List.foldl_cons, pushPeer_of_not_listable hr, ih]

/-- How far `track` got when it asks for the peers. -/
theorem peersAsked_some {ar' : AnnounceRequest} {torrentid : Int} (h : peersAsked ar e db = some (ar', torrentid)) :
    prepareData ar = some ar' ∧ getTorrentId db (cstr ar'.infoHash) e.torrent = torrentid ∧ torrentid ≠ dbNosuchhash ∧
      torrentid ≠ dbFailed ∧ e.prepare = sqliteOk ∧ e.bind = sqliteOk := by
  obtain ⟨x, hx, h⟩ := Option.bind_eq_some_iff.1 h
  simp only at h
  split at h
  · rename_i hc
    obtain ⟨rfl, rfl⟩ := Prod.mk.inj (Option.some.inj h)
    exact ⟨hx, rfl, hc⟩
  · cases h

/-- Preparing a request keeps the fields that are recorded and those that choose the peers. -/
theorem prepareData_fields {ar' : AnnounceRequest} (h : prepareData ar = some ar') :
    ar'.peerIdText = ar.peerIdText ∧ ar'.event = ar.event ∧ ar'.numwant = ar.numwant := by
  obtain ⟨x, -, hx⟩ := Option.bind_eq_some_iff.1 h
  obtain rfl := Option.some.inj hx
  exact ⟨rfl, rfl, rfl⟩

/-! ## The pieces -/

theorem lenString_eq (s : Bytes) : lenString s = encodeStr s := by
  have h : ascii ":" = [58] := by decide
  simp [lenString, encodeStr, h]

theorem peerEntry_eq (noPeerId : Bool) (r : PeerRow) : peerEntry noPeerId r = (entryValue noPeerId r).encode := by
  unfold peerEntry entryValue
  cases noPeerId with
  | true =>
    simp only [if_true, List.append_nil, encode_dict, encodeEntries, encode_str, encode_ofInt, lenString_eq, encodeInt,
      List.append_assoc, List.cons_append, List.nil_append]
    rfl
  | false =>
    simp only [Bool.false_eq_true, if_false, encode_dict, encodeEntries, encode_str, encode_ofInt, lenString_eq, encodeInt,
      List.append_assoc, List.cons_append, List.nil_append]
    rfl

theorem noNul_lenString {s : Bytes} (h : NoNul s) : NoNul (lenString s) := by
  have hcolon : NoNul (ascii ":") := by decide
  simp only [lenString, noNul_append]
  exact ⟨⟨noNul_of_digits (decimal_digits _), hcolon⟩, h⟩

/-- A short string and its length. -/
theorem length_lenString_le {s : Bytes} (h : s.length < 100) : (lenString s).length ≤ s.length + 3 := by
  have hd := @length_decimal_le s.length 2 (by decide) h
  have hcolon : (ascii ":").length = 1 := by decide
  simp only [lenString, List.length_append, hcolon]
  omega

/-- The entry of a stored row fits the buffer it is formatted in, and has no NUL inside. -/
theorem peerEntry_text {r : PeerRow} (h : StoredColumns inet r) (noPeerId : Bool) :
    NoNul (peerEntry noPeerId r) ∧ (peerEntry noPeerId r).length ≤ 200 := by
  obtain ⟨hp0, hpl⟩ := h.peerId
  obtain ⟨hi0, hil⟩ := h.ip
  simp only [maxUrlencHashLen, maxHashLen, inet6Addrstrlen] at hpl hil
  have hport := length_decimalInt_le h.port
  have h1 := noNul_lenString hi0
  have h1' := @length_lenString_le r.ip (by omega)
  have h2 := noNul_lenString hp0
  have h2' := @length_lenString_le r.peerId (by omega)
  have h3 := noNul_decimalInt r.port
  have hlit : (ascii "d2:ip").length = 5 ∧ (ascii "4:porti").length = 7 ∧ (ascii "ee").length = 2 ∧
      (ascii "e7:peer id").length = 10 ∧ (ascii "e").length = 1 := by decide
  obtain ⟨hl1, hl2, hl3, hl4, hl5⟩ := hlit
  unfold peerEntry
  split
  · refine ⟨?_, ?_⟩
    · simp only [noNul_append, h1, h3, and_true]
      decide
    · simp only [List.length_append, hl1, hl2, hl3]
      omega
  · refine ⟨?_, ?_⟩
    · simp only [noNul_append, h1, h2, h3, and_true]
      decide
    · simp only [List.length_append, hl1, hl2, hl4, hl5]
      omega

/-- The opening of a reply fits its buffer, and has no NUL inside. -/
theorem respOpen_text {interval : Int} (h : IsInt32 interval) (compact : Bool) :
    NoNul (respOpen interval compact) ∧ (respOpen interval compact).length ≤ 40 := by
  have hl := length_decimalInt_le h
  have h0 := noNul_decimalInt interval
  have hlit : (ascii "d8:intervali").length = 12 ∧ (ascii "e5:peers").length = 8 ∧ (ascii "l").length = 1 := by decide
  obtain ⟨hl1, hl2, hl3⟩ := hlit
  unfold respOpen
  cases compact with
  | true =>
    refine ⟨?_, ?_⟩
    · simp only [noNul_append, h0, if_true, and_true]
      decide
    · simp only [if_true, List.length_append, List.length_nil, hl1, hl2]
      omega
  | false =>
    refine ⟨?_, ?_⟩
    · simp only [noNul_append, h0, Bool.false_eq_true, if_false, and_true]
      decide
    · simp only [Bool.false_eq_true, if_false, List.length_append, hl1, hl2, hl3]
      omega

/-- A piece that fits its buffer is sent as it was formatted. -/
theorem cstr_snprintf {s : Bytes} (h : NoNul s) (hl : s.length ≤ 200) : cstr (snprintf trackBufSize s) = s := by
  rw [snprintf_of_lt (by simp only [trackBufSize]; omega), cstr_of_noNul h]

/-- The record of a stored IPv4 row is six bytes. -/
theorem record4_stored (hi : inet.Lawful) {r : PeerRow} (h : FromSockAddr inet r.ip r.protover) (h4 : r.protover = 4) :
    ∃ a, r.ip = inet.ntop4 a ∧ record4 inet r = a.toList ++ htons r.port := by
  rcases h with ⟨a, hip, -⟩ | ⟨a, -, h6⟩
  · exact ⟨a, hip, by rw [record4, hip, hi.pton4_ntop4]⟩
  · omega

/-- The record of another stored row is eighteen bytes. -/
theorem record6_stored (hi : inet.Lawful) {r : PeerRow} (h : FromSockAddr inet r.ip r.protover) (h4 : r.protover ≠ 4) :
    ∃ a, r.ip = inet.ntop6 a ∧ record6 inet r = a.toList ++ htons r.port := by
  rcases h with ⟨a, -, h4'⟩ | ⟨a, hip, -⟩
  · omega
  · exact ⟨a, hip, by rw [record6, hip, hi.pton6_ntop6]⟩

theorem length_flatMap_of {α : Type} {f : α → Bytes} {k : Nat} (l : List α) (h : ∀ x ∈ l, (f x).length = k) :
    (l.flatMap f).length = k * l.length := by
  induction l with
  | nil => simp
  | cons x l ih =>
    have hx := h x (by simp)
    have := ih fun y hy => h y (by simp [hy])
    simp only [List.flatMap_cons, List.length_append, List.length_cons, hx, this]
    ring

theorem length_records4 (hi : inet.Lawful) {rows : List PeerRow} (h : ∀ r ∈ rows, FromSockAddr inet r.ip r.protover) :
    ((rows4 rows).flatMap (record4 inet)).length = 6 * (rows4 rows).length := by
  refine length_flatMap_of _ fun r hr => ?_
  obtain ⟨hm, h4⟩ := List.mem_filter.1 hr
  obtain ⟨a, -, ha⟩ := record4_stored hi (h r hm) (by simpa using h4)
  rw [ha, List.length_append, Vector.length_toList, length_htons]

theorem length_records6 (hi : inet.Lawful) {rows : List PeerRow} (h : ∀ r ∈ rows, FromSockAddr inet r.ip r.protover) :
    ((rows6 rows).flatMap (record6 inet)).length = 18 * (rows6 rows).length := by
  refine length_flatMap_of _ fun r hr => ?_
  obtain ⟨hm, h4⟩ := List.mem_filter.1 hr
  obtain ⟨a, -, ha⟩ := record6_stored hi (h r hm) (by simpa using h4)
  rw [ha, List.length_append, Vector.length_toList, length_htons]

/-- The pieces of a reply that is not compact are the encoding of the dictionary with the list of the delivered rows. -/
theorem peerReply_plain (hc : ar.compact = false) {interval : Int} (h32 : IsInt32 interval) (steps : List PeerStep)
    (hn : 0 ≤ ar.numwant) (hrows : ∀ r ∈ delivered ar steps, StoredColumns inet r) :
    (peerReply inet ar interval steps).flatten = (replyValue inet interval ar (delivered ar steps)).encode := by
  obtain ⟨ho0, hol⟩ := respOpen_text h32 false
  have hent : (delivered ar steps).map (fun r => cstr (snprintf trackBufSize (peerEntry ar.noPeerId r))) =
      (delivered ar steps).map (fun r => (entryValue ar.noPeerId r).encode) := by
    refine List.map_congr_left fun r hr => ?_
    obtain ⟨h0, hl⟩ := peerEntry_text (hrows r hr) ar.noPeerId
    rw [cstr_snprintf h0 hl, peerEntry_eq]
  have hclose : cstr (ascii "ee") = ascii "ee" := by decide
  simp only [peerReply, peerLoop_plain hc hn, hc, sendString, cstr_snprintf ho0 (by omega), hent, hclose, Bool.false_eq_true,
    if_false]
  simp only [respOpen, replyValue, peersValue, hc, Bool.false_eq_true, if_false, Bool.false_and, encode_dict, encodeEntries,
    encode_ofInt, encode_list, encodeList_eq_flatMap, List.flatMap_map, List.flatten_append, List.flatten_cons,
    List.flatten_nil, ← List.flatMap_def, encodeInt, List.append_nil, List.append_assoc, List.cons_append, List.nil_append]
  rfl

/-- The pieces of a compact reply are the encoding of the dictionary with the records of the delivered rows. -/
theorem peerReply_compact (hi : inet.Lawful) (hc : ar.compact = true) {interval : Int} (h32 : IsInt32 interval)
    (steps : List PeerStep) (hn : 0 ≤ ar.numwant) (hmax : ar.numwant ≤ maxpeersSent)
    (hrows : ∀ r ∈ delivered ar steps, FromSockAddr inet r.ip r.protover) :
    (peerReply inet ar interval steps).flatten = (replyValue inet interval ar (delivered ar steps)).encode := by
  obtain ⟨ho0, hol⟩ := respOpen_text h32 true
  have hlen := length_delivered_le ar steps
  simp only [maxpeersSent] at hmax
  generalize hd : delivered ar steps = rows at hrows hlen
  have hl4 := length_records4 hi hrows
  have hl6 := length_records6 hi hrows
  have hle4 : (rows4 rows).length ≤ rows.length := List.length_filter_le _ _
  have hle6 : (rows6 rows).length ≤ rows.length := List.length_filter_le _ _
  have hsmall : ∀ n pre, n < 1000 → pre ≤ 14 → ∀ s : Bytes, s.length = pre →
      snprintf trackBufSize (s ++ decimal n ++ ascii ":") = s ++ decimal n ++ ascii ":" := by
    intro n pre hn hpre s hs
    have hdec := @length_decimal_le n 3 (by decide) (by omega)
    have hcolon : (ascii ":").length = 1 := by decide
    refine snprintf_of_lt ?_
    simp only [List.length_append, hs, hcolon, trackBufSize]
    omega
  have h4 := hsmall ((rows4 rows).flatMap (record4 inet)).length 0 (by omega) (by omega) [] rfl
  have h6 := hsmall ((rows6 rows).flatMap (record6 inet)).length 13 (by omega) (by omega) (ascii "10:peers_ipv6") rfl
  have hclose : cstr (ascii "e") = ascii "e" := by decide
  have hpos : (0 < ((rows6 rows).flatMap (record6 inet)).length) ↔ rows6 rows ≠ [] := by
    rw [hl6, ← List.length_pos_iff]
    omega
  simp only [List.nil_append] at h4
  simp only [peerReply, peerLoop_compact hc hn, hc, sendString, cstr_snprintf ho0 (by omega), hd, hclose, if_true, hpos, h4, h6]
  by_cases h0 : rows6 rows = []
  · simp only [respOpen, replyValue, peersValue, hc, if_true, h0, ne_eq, not_true_eq_false, bne_self_eq_false, Bool.and_false,
      Bool.false_eq_true, if_false, encode_dict, encodeEntries, encode_ofInt, encode_str, encodeStr, encodeInt, List.flatten_cons,
      List.flatten_nil, List.append_nil, List.append_assoc, List.cons_append, List.nil_append]
    rfl
  · simp only [respOpen, replyValue, peersValue, hc, if_true, h0, ne_eq, not_false_eq_true, bne_iff_ne, Bool.true_and,
      encode_dict, encodeEntries, encode_ofInt, encode_str, encodeStr, encodeInt, List.flatten_cons, List.flatten_nil,
      List.append_nil, List.append_assoc, List.cons_append, List.nil_append]
    rfl

/-! ## Size -/

theorem length_flatMap_le {α : Type} {f : α → Bytes} {k : Nat} (l : List α) (h : ∀ x ∈ l, (f x).length ≤ k) :
    (l.flatMap f).length ≤ k * l.length := by
  induction l with
  | nil => simp
  | cons x l ih =>
    have hx := h x (by simp)
    have := ih fun y hy => h y (by simp [hy])
    simp only [List.flatMap_cons, List.length_append, List.length_cons, Nat.mul_add]
    omega

theorem length_encodeStr_le {s : Bytes} (h : s.length < 10000) : (encodeStr s).length ≤ s.length + 5 := by
  have := @length_decimal_le s.length 4 (by decide) (by omega)
  simp only [encodeStr, List.length_append, List.length_cons]
  omega

/-- The keys of a reply, encoded. -/
theorem length_replyKeys : (encodeStr (ascii "interval")).length = 10 ∧ (encodeStr (ascii "peers")).length = 7 ∧
    (encodeStr (ascii "peers_ipv6")).length = 13 := by decide

/-- A plain reply with at most `MAXPEERS_SENT` stored rows is short. -/
theorem length_replyValue_plain_le (hc : ar.compact = false) {interval : Int} (h32 : IsInt32 interval) {rows : List PeerRow}
    (hlen : rows.length ≤ 50) (hrows : ∀ r ∈ rows, StoredColumns inet r) :
    (replyValue inet interval ar rows).encode.length ≤ 20000 := by
  have hint := length_decimalInt_le h32
  obtain ⟨hk1, hk2, -⟩ := length_replyKeys
  have hent : (rows.flatMap fun r => (entryValue ar.noPeerId r).encode).length ≤ 200 * rows.length := by
    refine length_flatMap_le rows fun r hr => ?_
    rw [← peerEntry_eq]
    exact (peerEntry_text (hrows r hr) ar.noPeerId).2
  unfold replyValue peersValue
  simp only [hc, Bool.false_eq_true, if_false, Bool.false_and, encode_dict, encodeEntries, encode_ofInt, encode_list,
    encodeList_eq_flatMap, List.flatMap_map, encodeInt, List.length_append, List.length_cons, List.length_nil, hk1, hk2,
    List.cons_append, List.nil_append] at hent ⊢
  omega

/-- So is a compact one, whatever else is stored with the addresses. -/
theorem length_replyValue_compact_le (hi : inet.Lawful) (hc : ar.compact = true) {interval : Int} (h32 : IsInt32 interval)
    {rows : List PeerRow} (hlen : rows.length ≤ 50) (hrows : ∀ r ∈ rows, FromSockAddr inet r.ip r.protover) :
    (replyValue inet interval ar rows).encode.length ≤ 20000 := by
  have hint := length_decimalInt_le h32
  obtain ⟨hk1, hk2, hk3⟩ := length_replyKeys
  have hl4 := length_records4 hi hrows
  have hl6 := length_records6 hi hrows
  have hle4 : (rows4 rows).length ≤ rows.length := List.length_filter_le _ _
  have hle6 : (rows6 rows).length ≤ rows.length := List.length_filter_le _ _
  have hs4 := @length_encodeStr_le ((rows4 rows).flatMap (record4 inet)) (by omega)
  have hs6 := @length_encodeStr_le ((rows6 rows).flatMap (record6 inet)) (by omega)
  unfold replyValue peersValue
  by_cases h0 : rows6 rows = []
  · simp only [hc, if_true, h0, bne_self_eq_false, Bool.and_false, Bool.false_eq_true, if_false, encode_dict, encodeEntries,
      encode_ofInt, encode_str, encodeInt, List.length_append, List.length_cons, List.length_nil, hk1, hk2, List.cons_append,
      List.nil_append]
    omega
  · simp only [hc, if_true, h0, ne_eq, not_false_eq_true, bne_iff_ne, Bool.true_and, encode_dict, encodeEntries, encode_ofInt,
      encode_str, encodeInt, List.length_append, List.length_cons, List.length_nil, hk1, hk2, hk3, List.cons_append,
      List.nil_append]
    omega

/-- A plain reply with at most `MAXPEERS_SENT` stored rows stays far below the lengths an `int` holds. -/
theorem length_replyValue_plain (hc : ar.compact = false) {interval : Int} (h32 : IsInt32 interval) {rows : List PeerRow}
    (hlen : rows.length ≤ 50) (hrows : ∀ r ∈ rows, StoredColumns inet r) :
    (replyValue inet interval ar rows).encode.length < 2147483648 :=
  (length_replyValue_plain_le hc h32 hlen hrows).trans_lt (by decide)

/-- So does a compact one, whatever else is stored with the addresses. -/
theorem length_replyValue_compact (hi : inet.Lawful) (hc : ar.compact = true) {interval : Int} (h32 : IsInt32 interval)
    {rows : List PeerRow} (hlen : rows.length ≤ 50) (hrows : ∀ r ∈ rows, FromSockAddr inet r.ip r.protover) :
    (replyValue inet interval ar rows).encode.length < 2147483648 :=
  (length_replyValue_compact_le hi hc h32 hlen hrows).trans_lt (by decide)

end Traccoon
