import Traccoon.Lemmas.FirstParts

/-!
# What `buf` held before the call

`parseSocket` does not clear its buffer. When `recv` returns a number of bytes, the terminator is written behind them and what was there
before is out of reach. A failed `recv` returns -1, which is taken for a length: the terminator is written in front of the array, and a
request that another client left there is answered (`leftover_iff`).
-/

namespace Traccoon

open CString

/-- What `recv` returns. -/
def recvResult : Option Bytes → Int
  | some received => received.length
  | none => -1

/-- The indices of the string that the string functions look at, its terminator with them. Without one they go on behind the array. -/
def stringIndices : Option Bytes → List Int
  | some text => (List.range (text.length + 1)).map Nat.cast
  | none => (List.range (1024 + 1)).map Nat.cast

/-- The indices of `buf` that a call touches: where `recv` writes, where the terminator is written, what the string functions look at
(`buffer[c]=0` writes at one of these), and where the second `recv` may write. -/
def touchedIndices (stack : Stack) (received : Option Bytes) : List Int :=
  let peeked := received.map (·.take recvSize)
  let size := recvResult peeked
  (List.range size.toNat).map Nat.cast ++
    (if size = 0 ∨ size = recvSize then [] else size :: stringIndices (bufText stack peeked)) ++ (List.range recvSize).map Nat.cast

/-- `buf` is touched inside the array only, and what a call sends, returns and does to the database is the same whatever `buf` held
before. -/
def IgnoresLeftover (inet : Inet) (recvIter : Nat) (received : Option Bytes) (announceInterval : Int) (e : ClientEnv) (db : Db) : Prop :=
  (∀ stack, ∀ i ∈ touchedIndices stack received, 0 ≤ i ∧ i ≤ 1023) ∧
  ∀ (hashbuf : Vector UInt8 61) (before before' : Vector UInt8 1024),
    parseSocket inet { buf := before, hashbuf := hashbuf } recvIter received announceInterval e db =
      parseSocket inet { buf := before', hashbuf := hashbuf } recvIter received announceInterval e db

namespace LeftoverBytesAux

variable {inet : Inet} {recvIter : Nat} {announceInterval : Int} {e : ClientEnv} {db : Db}

/-- A request is parsed without reading outside the arrays, and alike whatever `hashbuf` holds. -/
theorem parseRequest_some (inet : Inet) {text : Bytes} (h : NoNul text) (conn : Option SockAddr) :
    ∃ request, ∀ hashbuf, parseRequest inet hashbuf text conn = some request := by
  have hscrape : ∃ request, ∀ hashbuf, scrapeRequest hashbuf ((text.drop 5).drop 6) = some request := by
    have ht : NoNul ((text.drop 5).drop 6) := (h.of_suffix (List.drop_suffix 5 text)).of_suffix (List.drop_suffix 6 _)
    rcases scrapeRequest_first ht [] with hwaits | ⟨request, hrequest⟩
    · exact ⟨_, hwaits⟩
    · exact ⟨request, fun hashbuf => (hrequest hashbuf).1⟩
  unfold parseRequest
  split
  · split
    · exact ⟨_, fun _ => rfl⟩
    · split
      · exact hscrape
      · exact ⟨_, fun _ => rfl⟩
  · exact ⟨_, fun _ => rfl⟩

/-- A call that receives something depends on nothing that the arrays held. -/
theorem parseSocket_stack (received : Bytes) (stack stack' : Stack) :
    parseSocket inet stack recvIter (some received) announceInterval e db =
      parseSocket inet stack' recvIter (some received) announceInterval e db := by
  by_cases h0 : received = []
  · subst h0
    rfl
  · by_cases hlen : received.length < recvSize
    · obtain ⟨request, hrequest⟩ := parseRequest_some inet (noNul_cstr received) e.conn
      rw [parseSocket_received h0 hlen, parseSocket_received h0 hlen, hrequest, hrequest]
    · have hfull : ((some received).map (·.take recvSize)).map List.length = some recvSize := by
        simp only [Option.map_some, List.length_take, Option.some.injEq]
        omega
      simp only [parseSocket, hfull, or_true, if_true]

/-- All indices are inside when `recv` returns a number of bytes. -/
theorem touchedIndices_received (stack : Stack) (received : Bytes) : ∀ i ∈ touchedIndices stack (some received), 0 ≤ i ∧ i ≤ 1023 := by
  have hsize : (received.take recvSize).length ≤ 1023 := List.length_take_le _ _
  intro i hi
  simp only [touchedIndices, Option.map_some, recvResult, bufText, cstr_append_nul_any, stringIndices, List.mem_append, List.mem_map,
    List.mem_range, Int.toNat_natCast] at hi
  rcases hi with (⟨k, hk, rfl⟩ | hi) | ⟨k, hk, rfl⟩
  · omega
  · split at hi
    · cases hi
    · have htext : (cstr (received.take recvSize)).length ≤ (received.take recvSize).length := (List.takeWhile_prefix _).length_le
      rcases List.mem_cons.1 hi with rfl | hi
      · omega
      · obtain ⟨k, hk, rfl⟩ := List.mem_map.1 hi
        rw [List.mem_range] at hk
        omega
  · simp only [recvSize] at hk
    omega

/-- The terminator is written in front of the array when `recv` fails. -/
theorem touchedIndices_failed (stack : Stack) : -1 ∈ touchedIndices stack none := by
  have hsize : ¬(recvResult ((none : Option Bytes).map (·.take recvSize)) = 0 ∨
      recvResult ((none : Option Bytes).map (·.take recvSize)) = recvSize) := by decide
  refine List.mem_append_left _ (List.mem_append_right _ ?_)
  rw [if_neg hsize]
  exact List.mem_cons_self

/-- A buffer that begins with this text. -/
def leftover (text : Bytes) : Vector UInt8 1024 :=
  ⟨((text.take 1024) ++ List.replicate (1024 - text.length) 0).toArray, by
    simp only [List.size_toArray, List.length_append, List.length_take, List.length_replicate]
    omega⟩

theorem not_ignoresLeftover_failed : ¬IgnoresLeftover inet recvIter none announceInterval e db := by
  rintro ⟨hindices, -⟩
  have hfront := (hindices { buf := leftover [], hashbuf := Vector.replicate 61 0 } (-1) (touchedIndices_failed _)).1
  exact absurd hfront (by decide)

/-- What a failed `recv` leaves to be parsed is the text that was there. -/
theorem parseSocket_failed {text : Bytes} (h : NoNul text) (hlen : text.length < 1024) (hashbuf : Vector UInt8 61) :
    parseSocket inet { buf := leftover text, hashbuf := hashbuf } recvIter none announceInterval e db =
      (parseRequest inet hashbuf text e.conn).bind (serve inet recvIter announceInterval e db) := by
  obtain ⟨n, hn⟩ : ∃ n, 1024 - text.length = n + 1 := ⟨1023 - text.length, by omega⟩
  have hlist : (leftover text).toList = text ++ 0 :: List.replicate n 0 := by
    simp only [leftover, Vector.toList_mk, List.take_of_length_le (Nat.le_of_lt hlen), hn, List.replicate_succ]
  have hmem : (0 : UInt8) ∈ (leftover text).toList := by
    rw [hlist]
    simp
  have htext : bufText { buf := leftover text, hashbuf := hashbuf } none = some text := by
    simp only [bufText, if_pos hmem]
    rw [hlist, cstr_append_nul h]
  simp only [parseSocket, Option.map_none, reduceCtorEq, or_self, if_false, peekRequest, htext, Option.bind_eq_bind, Option.bind_some]

end LeftoverBytesAux

open LeftoverBytesAux

/-- For every result of `recv`, every database and however the calls are answered: the call touches `buf` inside only and does the same for
any two contents that `buf` had, exactly when `recv` does not fail. When it fails both parts break: `buf[-1]` is written, and there are
contents that are answered differently. -/
theorem leftover_iff (inet : Inet) (recvIter : Nat) (received : Option Bytes) (announceInterval : Int) (e : ClientEnv) (db : Db) :
    (IgnoresLeftover inet recvIter received announceInterval e db ↔ received ≠ none) ∧
    (received = none → (∀ stack, -1 ∈ touchedIndices stack received) ∧ ∃ hashbuf before before',
      parseSocket inet { buf := before, hashbuf := hashbuf } recvIter received announceInterval e db ≠
        parseSocket inet { buf := before', hashbuf := hashbuf } recvIter received announceInterval e db) := by
  refine ⟨⟨?_, ?_⟩, ?_⟩
  · rintro h rfl
    exact not_ignoresLeftover_failed h
  · intro h
    obtain ⟨bytes, rfl⟩ := Option.ne_none_iff_exists'.1 h
    exact ⟨fun stack => touchedIndices_received stack bytes, fun _ _ _ => parseSocket_stack bytes _ _⟩
  · rintro rfl
    refine ⟨touchedIndices_failed, Vector.replicate 61 0, leftover [], leftover (ascii "GET /"), fun heq => ?_⟩
    rw [parseSocket_failed (by decide) (by decide), parseSocket_failed (by decide) (by decide)] at heq
    have hsent := congrArg (fun r => r.map fun (p : Effects × Bool) => p.1.sent) heq
    change some notSupported = some milhouse at hsent
    revert hsent
    decide

namespace LeftoverBytesExample

def env : ClientEnv :=
  { conn := none
    track := { torrent := .ok 0, prepare := sqliteOk, bind := sqliteOk, steps := [], first := .ok 0, again := .ok 0 }
    scrape := { torrent := .ok 0, seeds := .ok 0, completed := .ok 0, peers := .ok 0 } }

def db : Db := Db.blank

end LeftoverBytesExample

open LeftoverBytesExample

/-- A client resets its connection between `select` and `recv`, and the scrape of the client before it is answered once more. -/
theorem not_ignoresLeftover_reset :
    ¬IgnoresLeftover PlainInet.inet 1 none 300 env db ∧
    parseSocket PlainInet.inet { buf := leftover (ascii "GET /scrape HTTP/1.1"), hashbuf := Vector.replicate 61 0 } 1 none 300 env db =
      some ({ sent := sendHttpHeaders (ascii "501 Not Implemented") standardHeader, lookups := [], db := db }, true) := by
  constructor
  · exact not_ignoresLeftover_failed
  · rw [parseSocket_failed (by decide) (by decide)]
    rfl

end Traccoon
