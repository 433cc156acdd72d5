import Traccoon.Net

/-!
# The exchange with the tracker

`http_get` calls `send` five times at most, and takes a piece that does not fill its chunk for the last. So the request is sent and the
stream received as a whole exactly when five calls are enough for the request and every piece but the last fills its chunk
(`httpGet_whole_iff`).
-/

namespace Traccoon

open CString Net

/-- How many bytes the first `n` calls of `send` have taken. -/
def handed (sends : Nat → Int) : Nat → Nat
  | 0 => 0
  | n + 1 => handed sends n + (sends n).toNat

/-- The request text of `http_get`. -/
def requestText (host port path : Bytes) : Bytes :=
  Getpeers.stringMerge (Getpeers.requestParts { host := host, port := port, path := path })

/-- Each call of `send` takes at least one byte and no more than what remains, and `recv` delivers the pieces of a stream. -/
structure Segmented (e : NetEnv) (request : Bytes) (pieces : List Bytes) : Prop where
  sends : ∀ n, handed e.sends n < request.length → 1 ≤ e.sends n ∧ handed e.sends n + e.sends n ≤ request.length
  recvs : e.recvs = pieces.map some
  sizes : ∀ p ∈ pieces, 1 ≤ p.length ∧ p.length ≤ responseBufferChunk

/-- All of the request has been sent, and the response is all of the stream, with a terminator behind it inside the buffer. -/
def Whole (o : Outcome) (request stream : Bytes) : Prop :=
  o.sent = request ∧ o.value = stream.length ∧ ∃ tail, o.response = some (stream ++ 0 :: tail)

namespace HttpGetAux

/-! ### Sending -/

theorem handed_mono (sends : Nat → Int) {m n : Nat} (h : m ≤ n) : handed sends m ≤ handed sends n := by
  induction h with
  | refl => exact Nat.le_refl _
  | step _ ih => exact Nat.le_trans ih (Nat.le_add_right _ _)

/-- The loop stops when nothing remains or no call is left. -/
theorem sendLoop_stops {sends : Nat → Int} {request : Bytes}
    (h : ∀ n, handed sends n < request.length → 1 ≤ sends n ∧ handed sends n + sends n ≤ request.length)
    (tries n : Nat) (hn : handed sends n ≤ request.length) {itBytes : Int} (hit : 0 ≤ itBytes) :
    ∃ k it, sendLoop sends request tries n (handed sends n) itBytes = (handed sends k, it) ∧ 0 ≤ it ∧
      handed sends k ≤ request.length ∧ k ≤ n + tries ∧ (handed sends k = request.length ∨ k = n + tries) := by
  induction tries generalizing n itBytes with
  | zero => exact ⟨n, itBytes, rfl, hit, hn, Nat.le_refl _, .inr rfl⟩
  | succ tries ih =>
    by_cases hlt : handed sends n < request.length
    · obtain ⟨hpos, hle⟩ := h n hlt
      have hnext : handed sends (n + 1) ≤ request.length := by
        simp only [handed]
        omega
      obtain ⟨k, it, hk, hit', hle', hbound, hstop⟩ := ih (n + 1) hnext (by omega : 0 ≤ sends n)
      refine ⟨k, it, ?_, hit', hle', by omega, ?_⟩
      · rw [sendLoop, if_pos hlt, if_neg (by omega)]
        exact hk
      · rcases hstop with hall | hend
        · exact .inl hall
        · exact .inr (by omega)
    · refine ⟨n, itBytes, ?_, hit, hn, by omega, .inl (by omega)⟩
      rw [sendLoop, if_neg hlt]

/-! ### Receiving -/

/-- What is received of a stream in pieces: up to the first that does not fill its chunk. -/
def received : List Bytes → Bytes
  | [] => []
  | p :: ps => if p.length = responseBufferChunk then p ++ received ps else p

/-- It is all of the stream exactly when only the last piece may be short. -/
theorem length_received_iff {pieces : List Bytes} (h : ∀ p ∈ pieces, 1 ≤ p.length) :
    (received pieces).length = pieces.flatten.length ↔ ∀ p ∈ pieces.dropLast, p.length = responseBufferChunk := by
  induction pieces with
  | nil => simp [received]
  | cons p ps ih =>
    obtain ⟨_, hps⟩ := List.forall_mem_cons.1 h
    cases ps with
    | nil => simp [received]
    | cons q qs =>
      have hq : 1 ≤ q.length := hps q List.mem_cons_self
      by_cases hfull : p.length = responseBufferChunk
      · simp [received, hfull, ← ih hps]
      · rw [received, if_neg hfull, List.dropLast_cons_cons, List.forall_mem_cons, List.flatten_cons, List.flatten_cons]
        simp only [List.length_append, hfull, false_and, iff_false]
        omega

/-- What is received of the stream is a beginning of it. -/
theorem received_beginning (pieces : List Bytes) : received pieces <+: pieces.flatten := by
  induction pieces with
  | nil => exact List.prefix_refl _
  | cons p ps ih =>
    rw [received, List.flatten_cons]
    split
    · exact (List.prefix_append_right_inj p).2 ih
    · exact List.prefix_append _ _

/-- A chunk that is allocated lies behind the response. -/
theorem grow_some {response buf : Bytes} {chunk : Vector UInt8 512} (h : grow response chunk = some buf) :
    buf = response ++ chunk.toList := by
  unfold grow at h
  split at h
  · cases h
  · exact (Option.some.inj h).symm

theorem recvLoop_nil {fresh : Nat → Vector UInt8 512} {i bytes : Nat} {response : Bytes} {r : Bytes × Nat}
    (h : recvLoop fresh [] i response bytes = some r) : r = (response ++ (fresh i).toList, bytes) := by
  rw [recvLoop, Option.bind_eq_bind, Option.bind_eq_some_iff] at h
  obtain ⟨buf, hbuf, h⟩ := h
  rw [← grow_some hbuf]
  exact (Option.some.inj h).symm

theorem recvLoop_cons {fresh : Nat → Vector UInt8 512} {piece : Bytes} {recvs : List (Option Bytes)} {i bytes : Nat} {response : Bytes}
    {r : Bytes × Nat} (h : recvLoop fresh (some piece :: recvs) i response bytes = some r) :
    let buf := response ++ piece ++ (fresh i).toList.drop piece.length
    if piece.length = responseBufferChunk then recvLoop fresh recvs (i + 1) buf (bytes + piece.length) = some r
    else r = (buf, bytes + piece.length) := by
  rw [recvLoop, Option.bind_eq_bind, Option.bind_eq_some_iff] at h
  obtain ⟨buf, hbuf, h⟩ := h
  have hdrop : buf.drop (response.length + piece.length) = (fresh i).toList.drop piece.length := by
    rw [grow_some hbuf, ← List.drop_drop, List.drop_left]
  rw [hdrop] at h
  split at h
  · rename_i hfull
    rw [if_pos hfull]
    exact h
  · rename_i hshort
    rw [if_neg hshort]
    exact (Option.some.inj h).symm

/-- The buffer that the loop leaves begins with what has been received, and is longer. -/
theorem recvLoop_received {fresh : Nat → Vector UInt8 512} {pieces : List Bytes} (h : ∀ p ∈ pieces, p.length ≤ responseBufferChunk)
    {i bytes : Nat} {response : Bytes} {r : Bytes × Nat} (hb : bytes = response.length)
    (hl : recvLoop fresh (pieces.map some) i response bytes = some r) :
    ∃ x tail, r.1 = response ++ received pieces ++ x :: tail ∧ r.2 = (response ++ received pieces).length := by
  induction pieces generalizing i response bytes with
  | nil =>
    have hne : (fresh i).toList ≠ [] := List.ne_nil_of_length_pos (by rw [Vector.length_toList]; omega)
    obtain ⟨x, tail, htail⟩ := List.exists_cons_of_ne_nil hne
    rw [recvLoop_nil hl, htail, received, List.append_nil]
    exact ⟨x, tail, rfl, hb⟩
  | cons p ps ih =>
    obtain ⟨hp, hps⟩ := List.forall_mem_cons.1 h
    have hnext := recvLoop_cons hl
    simp only at hnext
    by_cases hfull : p.length = responseBufferChunk
    · have hdrop : (fresh i).toList.drop p.length = [] := List.drop_eq_nil_of_le (by rw [Vector.length_toList, hfull, responseBufferChunk])
      rw [if_pos hfull, hdrop, List.append_nil] at hnext
      obtain ⟨x, tail, hbuf, hbytes⟩ := ih hps (by rw [hb, List.length_append]) hnext
      rw [received, if_pos hfull, ← List.append_assoc]
      exact ⟨x, tail, hbuf, hbytes⟩
    · have hne : (fresh i).toList.drop p.length ≠ [] := by
        rw [ne_eq, List.drop_eq_nil_iff, Vector.length_toList]
        unfold responseBufferChunk at hfull hp
        omega
      obtain ⟨x, tail, htail⟩ := List.exists_cons_of_ne_nil hne
      rw [if_neg hfull, htail] at hnext
      rw [hnext, received, if_neg hfull]
      exact ⟨x, tail, rfl, by rw [hb, List.length_append]⟩

/-! ### The exchange -/

variable {host port path : Bytes} {e : NetEnv} {pieces : List Bytes} {o : Outcome}

/-- A response that is not refused is what is received of the stream, with a terminator behind it. -/
theorem readResponse_received (hrecvs : e.recvs = pieces.map some) (hsizes : ∀ p ∈ pieces, p.length ≤ responseBufferChunk) {sent : Bytes}
    (h : readResponse e sent = some o) (hv : 0 ≤ o.value) :
    o.sent = sent ∧ o.value = (received pieces).length ∧ ∃ tail, o.response = some (received pieces ++ 0 :: tail) := by
  rw [readResponse, Option.bind_eq_bind, Option.bind_eq_some_iff] at h
  obtain ⟨⟨response, bytes⟩, hloop, h⟩ := h
  rw [hrecvs] at hloop
  obtain ⟨x, tail, rfl, rfl⟩ := recvLoop_received hsizes (by rfl) hloop
  simp only [List.nil_append, List.length_append, List.length_cons, List.set_append_right _ _ (Nat.le_refl _), Nat.sub_self,
    List.set_cons_zero] at h
  split at h
  · split at h
    · obtain rfl := Option.some.inj h
      exact ⟨rfl, rfl, tail, rfl⟩
    · obtain rfl := Option.some.inj h
      cases hv
  · cases h

/-- A call that does not fail talks to the tracker. -/
theorem exchange_of_httpGet (h : httpGet (some host) (some port) (some path) e = some o) (hv : 0 ≤ o.value) :
    exchange { host := host, port := port, path := path } e = some o := by
  unfold httpGet at h
  cases haddresses : e.addresses with
  | none =>
    simp only [haddresses] at h
    obtain rfl := Option.some.inj h
    cases hv
  | some addresses =>
    simp only [haddresses] at h
    split at h
    · exact h
    · obtain rfl := Option.some.inj h
      cases hv

/-- What the calls of `send` have taken is behind the loop what has been sent. -/
theorem readResponse_of_exchange {url : Getpeers.UrlComponents} {n : Nat} {it : Int} (h : exchange url e = some o) (hit : 0 ≤ it)
    (hloop : sendLoop e.sends (Getpeers.stringMerge (Getpeers.requestParts url)) maxSendRetryCount 0 0 0 = (n, it)) :
    readResponse e ((Getpeers.stringMerge (Getpeers.requestParts url)).take n) = some o := by
  unfold exchange at h
  simp only [hloop] at h
  split at h
  · cases h
  · rw [if_neg (by omega)] at h
    exact h

/-- What has been sent is what some calls of `send` have taken: enough of them, or as many as are made. -/
theorem httpGet_outcome (hs : Segmented e (requestText host port path) pieces) (h : httpGet (some host) (some port) (some path) e = some o)
    (hv : 0 ≤ o.value) :
    ∃ k, o.sent = (requestText host port path).take (handed e.sends k) ∧
      (handed e.sends k = (requestText host port path).length ∧ k ≤ maxSendRetryCount ∨
        handed e.sends k ≤ (requestText host port path).length ∧ k = maxSendRetryCount) ∧
      o.value = (received pieces).length ∧ ∃ tail, o.response = some (received pieces ++ 0 :: tail) := by
  obtain ⟨k, it, hloop, hit, hle, hbound, hstop⟩ := sendLoop_stops hs.sends maxSendRetryCount 0 (Nat.zero_le _) (Int.le_refl 0)
  have hread := readResponse_of_exchange (exchange_of_httpGet h hv) hit hloop
  obtain ⟨hsent, hvalue, hresponse⟩ := readResponse_received hs.recvs (fun p hp => (hs.sizes p hp).2) hread hv
  refine ⟨k, hsent, ?_, hvalue, hresponse⟩
  rcases hstop with hall | hlast
  · exact .inl ⟨hall, by omega⟩
  · exact .inr ⟨hle, by omega⟩

end HttpGetAux

open HttpGetAux

/-- For every request, every way the calls of `send` take it and every way `recv` delivers a stream: when the value is no failure, the
whole request has been sent and the whole stream is the response exactly when five calls of `send` are enough and every piece but the last
fills its chunk. -/
theorem httpGet_whole_iff {host port path : Bytes} {e : NetEnv} {pieces : List Bytes} {o : Outcome}
    (hs : Segmented e (requestText host port path) pieces) (h : httpGet (some host) (some port) (some path) e = some o)
    (hv : 0 ≤ o.value) :
    Whole o (requestText host port path) pieces.flatten ↔
      (∃ n ≤ maxSendRetryCount, handed e.sends n = (requestText host port path).length) ∧
        ∀ p ∈ pieces.dropLast, p.length = responseBufferChunk := by
  obtain ⟨k, hsent, hstop, hvalue, tail, hresponse⟩ := httpGet_outcome hs h hv
  have hpieces := length_received_iff fun p hp => (hs.sizes p hp).1
  constructor
  · rintro ⟨hall, hlen, -⟩
    refine ⟨?_, hpieces.1 (by omega)⟩
    have hk : (requestText host port path).length ≤ handed e.sends k := by
      rw [hsent] at hall
      exact (List.take_eq_self_iff _).1 hall
    rcases hstop with ⟨heq, hle⟩ | ⟨hle, rfl⟩
    · exact ⟨k, hle, heq⟩
    · exact ⟨_, Nat.le_refl _, Nat.le_antisymm hle hk⟩
  · rintro ⟨⟨n, hn, hall⟩, hfull⟩
    have hreceived : received pieces = pieces.flatten := (received_beginning pieces).eq_of_length (hpieces.2 hfull)
    rw [hreceived] at hvalue hresponse
    refine ⟨?_, hvalue, tail, hresponse⟩
    have hk : (requestText host port path).length ≤ handed e.sends k := by
      rcases hstop with ⟨heq, -⟩ | ⟨-, rfl⟩
      · exact heq.ge
      · exact hall.symm.le.trans (handed_mono e.sends hn)
    rw [hsent, List.take_of_length_le hk]

namespace HttpGetExample

/-- A connection over which `send` takes `n` bytes in each call and the stream comes in these pieces. -/
def answers (n : Nat) (pieces : List Bytes) : NetEnv :=
  { addresses := some [.connected], sends := fun _ => n, recvs := pieces.map some, fresh := fun _ => Vector.replicate 512 0 }

/-- The request for `http://h:80/a`. -/
def request : Bytes := requestText (ascii "h") (ascii "80") (ascii "a")

/-- The request is sent to its tracker over this connection. -/
def get (e : NetEnv) : Option Outcome := httpGet (some (ascii "h")) (some (ascii "80")) (some (ascii "a")) e

/-- A reply in one piece, and in two. -/
def whole : List Bytes := [ascii "HTTP/1.1 200 OK\r\n"]
def cut : List Bytes := [ascii "HTTP/1.1 ", ascii "200 OK\r\n"]

/-- A longer one, in a piece of 512 bytes and what is left. -/
def long : List Bytes := [ascii "HTTP/1.1 200 OK\r\n" ++ List.replicate 495 32, ascii "the rest"]

theorem handed_answers (n : Nat) (pieces : List Bytes) (i : Nat) : handed (answers n pieces).sends i = i * n := by
  induction i with
  | zero => rw [handed, Nat.zero_mul]
  | succ i ih => rw [handed, ih, Nat.succ_mul, answers, Int.toNat_natCast]

/-- Calls that take a divisor of the request's length take no more than what remains. -/
theorem segmented_answers {n : Nat} (hn : 1 ≤ n) (hdvd : n ∣ request.length) {pieces : List Bytes}
    (h : ∀ p ∈ pieces, 1 ≤ p.length ∧ p.length ≤ responseBufferChunk) : Segmented (answers n pieces) request pieces := by
  refine ⟨?_, rfl, h⟩
  intro i hi
  obtain ⟨k, hk⟩ := hdvd
  rw [handed_answers, hk, Nat.mul_comm n k] at hi
  have hnext : (i + 1) * n ≤ k * n := Nat.mul_le_mul_right n (Nat.lt_of_mul_lt_mul_right hi)
  rw [handed_answers, hk, Nat.mul_comm n k]
  refine ⟨Int.ofNat_le.2 hn, ?_⟩
  rw [Nat.succ_mul] at hnext
  exact Int.ofNat_le.2 hnext

end HttpGetExample

open HttpGetExample

set_option maxRecDepth 20000 in
/-- A reply that fills a chunk and goes on in a second one, to a request that three calls of `send` have taken. -/
theorem httpGet_whole_iff_chunks :
    Segmented (answers 36 long) request long ∧ ∃ o, get (answers 36 long) = some o ∧ Whole o request long.flatten := by
  have hs : Segmented (answers 36 long) request long := segmented_answers (by decide) (by decide +kernel) (by decide +kernel)
  have hvalue : (get (answers 36 long)).map Outcome.value = some 520 := by decide +kernel
  obtain ⟨o, ho, hv⟩ := Option.map_eq_some_iff.1 hvalue
  refine ⟨hs, o, ho, (httpGet_whole_iff hs ho (by rw [hv]; decide)).2 ⟨⟨3, by decide, ?_⟩, by decide +kernel⟩⟩
  rw [handed_answers]
  decide +kernel

set_option maxRecDepth 20000 in
/-- Of the short reply in two pieces only the first is received, and of a request that is taken byte by byte only `GET /` is sent. -/
theorem not_whole_cut :
    (Segmented (answers request.length cut) request cut ∧
      ∃ o, get (answers request.length cut) = some o ∧ o.value = 9 ∧
        ¬Whole o request cut.flatten) ∧
    Segmented (answers 1 whole) request whole ∧
      ∃ o, get (answers 1 whole) = some o ∧ o.value = 17 ∧
        o.sent = ascii "GET /" ∧ ¬Whole o request whole.flatten := by
  have hlen : 1 ≤ request.length := by decide
  have hcut : (get (answers request.length cut)).map Outcome.value = some 9 := by
    decide
  have hslow : (get (answers 1 whole)).map
      (fun o => (o.value, o.sent)) = some (17, ascii "GET /") := by decide
  obtain ⟨o, ho, hv⟩ := Option.map_eq_some_iff.1 hcut
  obtain ⟨o', ho', hv'⟩ := Option.map_eq_some_iff.1 hslow
  obtain ⟨hvalue, hsent⟩ := Prod.mk.inj hv'
  refine ⟨⟨segmented_answers hlen (Nat.dvd_refl _) (by decide), o, ho, hv, ?_⟩,
    segmented_answers (Nat.le_refl 1) (Nat.one_dvd _) (by decide), o', ho', hvalue, hsent, ?_⟩
  · rintro ⟨-, hall, -⟩
    rw [hv] at hall
    exact absurd hall (by decide)
  · rintro ⟨hall, -⟩
    rw [hsent] at hall
    exact absurd hall (by decide)

end Traccoon
