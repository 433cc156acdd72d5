import Traccoon.TrackBuffers
import Traccoon.Lemmas.Listing

/-!
# The bounds of the arrays in `track`

No copy in `track` checks a bound. A request wants 50 peers at most, whatever was sent, and a row takes 6 bytes of `buf4` or 18 of `buf6`;
so every copy stays inside its array, and the entries of stored rows are shorter than `buf` (`peer_buffers`).
-/

namespace Traccoon

open CString

/-- The arrays in front of the loop: whatever they hold, nothing of a compact reply is in them. -/
def PeerBuffers.Fresh (ar : AnnounceRequest) (b : PeerBuffers) : Prop := ar.compact = true → b.pos4 = 0 ∧ b.pos6 = 0

/-- The arrays hold what has been gathered. -/
structure PeerBuffers.Holds (b : PeerBuffers) (l : Listing) : Prop where
  pos4 : b.pos4 = l.buf4.length
  pos6 : b.pos6 = l.buf6.length
  text4 : b.buf4.toList.take b.pos4 = l.buf4
  text6 : b.buf6.toList.take b.pos6 = l.buf6

namespace PeerBuffersAux

variable {inet : Inet} {ar : AnnounceRequest}

/-- The two copies of a record. -/
theorem memcpy_record {k pos : Nat} {buf : Vector UInt8 1024} (h : pos + k + 2 ≤ 1024) (a : Vector UInt8 k) (port : Int) :
    ∃ buf' buf'', memcpy buf pos a.toList = some buf' ∧ memcpy buf' (pos + k) (htons port) = some buf'' ∧
      buf''.toList.take (pos + k + 2) = buf.toList.take pos ++ a.toList ++ htons port := by
  have hk : a.toList.length = k := Vector.length_toList
  obtain ⟨buf', h1, ht⟩ := @memcpy_of_le 1024 buf pos a.toList (by omega)
  obtain ⟨buf'', h2, ht'⟩ := @memcpy_of_le 1024 buf' (pos + k) (htons port) h
  rw [hk] at ht
  rw [length_htons, ht] at ht'
  exact ⟨buf', buf'', h1, h2, ht'⟩

/-- One row: while there is room for a record in both arrays, the copies stay inside, and the arrays hold what has been gathered. -/
theorem copyRow_holds {b : PeerBuffers} {l : Listing} (hc : ar.compact = true) (h : b.Holds l) (h4 : b.pos4 + 6 ≤ 1024)
    (h6 : b.pos6 + 18 ≤ 1024) (r : PeerRow) :
    ∃ b', copyRow inet ar r b = some b' ∧ b'.Holds (pushPeer inet ar r l) ∧ b'.pos4 ≤ b.pos4 + 6 ∧ b'.pos6 ≤ b.pos6 + 18 := by
  unfold copyRow pushPeer
  cases hr : isRequester ar r with
  | true => exact ⟨b, rfl, h, by omega, by omega⟩
  | false =>
    simp only [hc, Bool.not_true, Bool.false_eq_true, if_false]
    by_cases hproto : r.protover = 4
    · simp only [if_pos hproto]
      cases hp : inet.pton4 r.ip with
      | none => exact ⟨b, rfl, h, by omega, by omega⟩
      | some a =>
        obtain ⟨buf', buf'', h1, h2, ht⟩ := @memcpy_record 4 b.pos4 b.buf4 h4 a r.port
        refine ⟨{ b with buf4 := buf'', pos4 := b.pos4 + 4 + 2 }, by simp [h1, h2], ?_, Nat.le_refl _, Nat.le_add_right _ _⟩
        refine ⟨?_, h.pos6, ?_, h.text6⟩
        · simp only [h.pos4, List.length_append, Vector.length_toList, length_htons]
        · rw [ht, h.text4]
    · simp only [if_neg hproto]
      cases hp : inet.pton6 r.ip with
      | none => exact ⟨b, rfl, h, by omega, by omega⟩
      | some a =>
        obtain ⟨buf', buf'', h1, h2, ht⟩ := @memcpy_record 16 b.pos6 b.buf6 h6 a r.port
        refine ⟨{ b with buf6 := buf'', pos6 := b.pos6 + 16 + 2 }, by simp [h1, h2], ?_, Nat.le_add_right _ _, Nat.le_refl _⟩
        refine ⟨h.pos4, ?_, h.text4, ?_⟩
        · simp only [h.pos6, List.length_append, Vector.length_toList, length_htons]
        · rw [ht, h.text6]

/-- The loop from iteration `i` on, in front of which a record at most has been copied for each iteration. -/
theorem copyRows_holds (hc : ar.compact = true) (hmax : ar.numwant ≤ maxpeersSent) (steps : List PeerStep) {i : Nat} {b : PeerBuffers}
    {l : Listing} (h : b.Holds l) (h4 : b.pos4 ≤ 6 * i) (h6 : b.pos6 ≤ 18 * i) (hi : i ≤ 50) :
    ∃ b', copyRows inet ar steps i b = some b' ∧ b'.Holds (peerLoop inet ar steps i l) ∧ b'.pos4 ≤ 300 ∧ b'.pos6 ≤ 900 := by
  induction steps generalizing i b l with
  | nil => exact ⟨b, rfl, h, by omega, by omega⟩
  | cons s steps ih =>
    cases s with
    | done => exact ⟨b, rfl, h, by omega, by omega⟩
    | fails c => exact ⟨b, rfl, h, by omega, by omega⟩
    | row r =>
      unfold copyRows peerLoop
      by_cases hlt : (i : Int) < ar.numwant
      · have h50 : i < 50 := by
          unfold maxpeersSent at hmax
          omega
        obtain ⟨b', hb', hl', h4', h6'⟩ := @copyRow_holds inet ar b l hc h (by omega) (by omega) r
        rw [if_pos hlt, if_pos hlt, hb']
        exact @ih (i + 1) b' _ hl' (by omega) (by omega) (by omega)
      · rw [if_neg hlt, if_neg hlt]
        exact ⟨b, rfl, h, by omega, by omega⟩

/-- A reply that is not compact does not touch the arrays. -/
theorem copyRows_plain (hc : ar.compact = false) (steps : List PeerStep) (i : Int) (b : PeerBuffers) :
    copyRows inet ar steps i b = some b := by
  induction steps generalizing i with
  | nil => rfl
  | cons s steps ih =>
    cases s with
    | done => rfl
    | fails c => rfl
    | row r =>
      have hrow : copyRow inet ar r b = some b := by simp [copyRow, hc]
      unfold copyRows
      split
      · rw [hrow]
        exact ih (i + 1)
      · rfl

/-- A list that fits behind its length is sent. -/
theorem sendList_of_le {buf list : Vector UInt8 1024} {text data : Bytes} {pos : Nat} (ht : text.length ≤ 100) (hpos : pos ≤ 900)
    (hd : list.toList.take pos = data) :
    ∃ buf', sendList buf text list pos = some (buf', snprintf trackBufSize text ++ data) := by
  have hfit : snprintf trackBufSize text = text := snprintf_of_lt (by unfold trackBufSize; omega)
  have hlen : (text ++ [0]).length = text.length + 1 := List.length_append
  have hdata : data.length = pos := by
    rw [← hd, List.length_take, Vector.length_toList]
    omega
  obtain ⟨buf', h1, htake⟩ := @memcpy_of_le 1024 buf 0 (text ++ [0]) (by omega)
  obtain ⟨buf'', h2, htake'⟩ := @memcpy_of_le 1024 buf' text.length data (by omega)
  have htext : buf'.toList.take text.length = text := by
    have := congrArg (List.take text.length) htake
    rwa [List.take_take, hlen, Nat.min_eq_left (by omega), List.take_zero, List.nil_append, List.take_left] at this
  refine ⟨buf'', ?_⟩
  rw [hdata, htext] at htake'
  simp only [sendList, hfit, h1, hd, h2, Option.bind_eq_bind, Option.bind_some, if_pos (show pos ≤ 1024 by omega), htake']
  rfl

/-- The number of bytes of a list is short. -/
theorem length_prefix_le {t : Bytes} (ht : t.length ≤ 20) {n : Nat} (hn : n ≤ 900) : (t ++ decimal n ++ ascii ":").length ≤ 100 := by
  have hdec := @length_decimal_le n 3 (by decide) (by omega)
  have hcolon : (ascii ":").length = 1 := by decide
  simp only [List.length_append, hcolon]
  omega

/-- Behind the loop the lists are copied and sent as they have been gathered. -/
theorem sendLists_holds {b : PeerBuffers} {l : Listing} (h : b.Holds l) (h4 : b.pos4 ≤ 300) (h6 : b.pos6 ≤ 900) (buf : Vector UInt8 1024) :
    sendLists buf b = some ([snprintf trackBufSize (decimal l.buf4.length ++ ascii ":") ++ l.buf4] ++
      if 0 < l.buf6.length then [snprintf trackBufSize (ascii "10:peers_ipv6" ++ decimal l.buf6.length ++ ascii ":") ++ l.buf6]
      else []) := by
  have hlen4 := @length_prefix_le [] (by decide) b.pos4 (by omega)
  have hlen6 := @length_prefix_le (ascii "10:peers_ipv6") (by decide) b.pos6 h6
  obtain ⟨buf', hfirst⟩ := @sendList_of_le buf b.buf4 _ _ b.pos4 hlen4 (by omega) h.text4
  obtain ⟨buf'', hsecond⟩ := @sendList_of_le buf' b.buf6 _ _ b.pos6 hlen6 h6 h.text6
  rw [List.nil_append] at hfirst
  rw [sendLists, hfirst, Option.bind_eq_bind, Option.bind_some]
  simp only [h.pos4, h.pos6] at hsecond ⊢
  by_cases hpos : 0 < l.buf6.length
  · rw [if_pos hpos, if_pos hpos, hsecond]
    rfl
  · rw [if_neg hpos, if_neg hpos]
    rfl

theorem holds_fresh {b : PeerBuffers} (hc : ar.compact = true) (h : b.Fresh ar) : b.Holds { sent := [], buf4 := [], buf6 := [] } := by
  obtain ⟨h4, h6⟩ := h hc
  exact ⟨h4, h6, by rw [h4, List.take_zero], by rw [h6, List.take_zero]⟩

/-- All of the loop, and what follows it, for a request that wants 50 peers at most. -/
theorem compact_inside (hc : ar.compact = true) (hn : 0 ≤ ar.numwant) (hmax : ar.numwant ≤ maxpeersSent) (steps : List PeerStep)
    {start : PeerBuffers} (hs : start.Fresh ar) :
    ∃ b, copyRows inet ar steps 0 start = some b ∧ b.pos4 ≤ 300 ∧ b.pos6 ≤ 900 ∧ ∀ buf, ∃ pieces, sendLists buf b = some pieces ∧
      ∀ interval, peerReply inet ar interval steps =
        sendString (snprintf trackBufSize (respOpen interval true)) ++ pieces ++ sendString (ascii "e") := by
  obtain ⟨h4, h6⟩ := hs hc
  obtain ⟨b, hb, hl, hb4, hb6⟩ := @copyRows_holds inet ar hc hmax steps 0 start _ (holds_fresh hc hs) (by omega) (by omega) (by omega)
  refine ⟨b, hb, hb4, hb6, fun buf => ⟨_, sendLists_holds hl hb4 hb6 buf, fun interval => ?_⟩⟩
  have hsent : (peerLoop inet ar steps 0 { sent := [], buf4 := [], buf6 := [] }).sent = [] := by rw [peerLoop_compact hc hn]
  simp only [peerReply, hc, Int.natCast_zero, hsent, if_true, List.append_nil]

end PeerBuffersAux

open PeerBuffersAux

/-- Whatever text stands for `numwant`, and for every request that is built: from 1 to 50 peers are wanted. For every list of answers to
the peers query, after any number of them: every copy into `buf4` and `buf6` stays inside, 300 and 900 bytes of which are filled at most;
so do the copies behind the lengths into `buf`, and what is sent from there is the reply. The entries of stored rows are not cut off. -/
theorem peer_buffers (inet : Inet) (hi : inet.Lawful) :
    (∀ numwant : Option Bytes, 1 ≤ parseNumwant numwant ∧ parseNumwant numwant ≤ maxpeersSent) ∧
    (∀ ar ar', Builds inet ar → prepareData ar = some ar' → 1 ≤ ar'.numwant ∧ ar'.numwant ≤ maxpeersSent ∧
      ∀ (steps : List PeerStep) (start : PeerBuffers), start.Fresh ar' →
        (∀ n, ∃ b, copyRows inet ar' (steps.take n) 0 start = some b ∧ (ar'.compact = true → b.pos4 ≤ 300 ∧ b.pos6 ≤ 900)) ∧
        (ar'.compact = true → ∃ b, copyRows inet ar' steps 0 start = some b ∧ ∀ buf, ∃ pieces, sendLists buf b = some pieces ∧
          ∀ interval, peerReply inet ar' interval steps =
            sendString (snprintf trackBufSize (respOpen interval true)) ++ pieces ++ sendString (ascii "e"))) ∧
    ∀ r, StoredRow inet r → ∀ noPeerId, snprintf trackBufSize (peerEntry noPeerId r) = peerEntry noPeerId r := by
  refine ⟨parseNumwant_range, fun ar ar' har hp => ?_, fun r hr noPeerId => ?_⟩
  · obtain ⟨hmin, hmax⟩ := har.built.numwant
    rw [← (prepareData_fields hp).2.2] at hmin hmax
    refine ⟨hmin, hmax, fun steps start hs => ⟨fun n => ?_, fun hc => ?_⟩⟩
    · cases hc : ar'.compact with
      | false => exact ⟨start, copyRows_plain hc _ 0 start, fun h => by cases h⟩
      | true =>
        obtain ⟨b, hb, h4, h6, -⟩ := @compact_inside inet ar' hc (by omega) hmax (steps.take n) start hs
        exact ⟨b, hb, fun _ => ⟨h4, h6⟩⟩
    · obtain ⟨b, hb, -, -, hsend⟩ := @compact_inside inet ar' hc (by omega) hmax steps start hs
      exact ⟨b, hb, hsend⟩
  · obtain ⟨-, hl⟩ := peerEntry_text (hr.columns hi) noPeerId
    exact snprintf_of_lt (by unfold trackBufSize; omega)

namespace PeerBuffersExample

/-- The stack before a call: nothing but zeros. -/
def stack : Stack := { buf := Vector.replicate 1024 0, hashbuf := Vector.replicate 61 0 }

/-- An announce that asks for a negative number of peers. -/
def request : Bytes :=
  ascii ("GET /announce?info_hash=aaaaaaaaaaaaaaaaaaaa&peer_id=-TC0010-000000000001&port=6881&compact=1&numwant=-1 HTTP/1.1")

/-- The announce request it makes. -/
def announce : AnnounceRequest :=
  { infoHash := copyParam (ascii "aaaaaaaaaaaaaaaaaaaa"), peerId := copyParam (ascii "-TC0010-000000000001"), ip := ascii "10.0.0.1",
    port := 6881, protover := 4, event := .none, left := 0, compact := true, noPeerId := false, numwant := 50 }

theorem builds_announce : Builds PlainInet.inet announce := ⟨stack, some request, some (.in4 #v[10, 0, 0, 1]), by decide⟩

end PeerBuffersExample

open PeerBuffersExample

/-- The row of another peer, for a compact reply. -/
theorem peer_buffers_one : ∃ ar', prepareData announce = some ar' ∧ ar'.compact = true ∧ ∀ start : PeerBuffers, start.Fresh ar' →
    ∃ b, copyRows PlainInet.inet ar' [.row { announce.stored with ip := ascii "10.0.0.2" }] 0 start = some b ∧
      (ar'.compact = true → b.pos4 ≤ 300 ∧ b.pos6 ≤ 900) := by
  obtain ⟨infoHash, hp⟩ := prepareData_built builds_announce.built
  refine ⟨_, hp, rfl, fun start hs => ?_⟩
  have hone := (((peer_buffers PlainInet.inet PlainInet.lawful).2.1 _ _ builds_announce hp).2.2
    [.row { announce.stored with ip := ascii "10.0.0.2" }] start hs).1 1
  rwa [List.take_of_length_le (by rfl)] at hone

end Traccoon
