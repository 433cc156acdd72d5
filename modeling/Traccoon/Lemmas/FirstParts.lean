import Traccoon.Lemmas.HashValues
import Traccoon.Thread

/-!
# First parts of a request

What `parseSocket` makes of a request that has not arrived whole. With the command there, it waits or does what it does for the whole
request; with less of it, it answers at once, as it never answers an announce or a scrape.
-/

namespace Traccoon

open CString

/-- The two commands that `parseSocket` knows. -/
def commands : List Bytes := [ascii "GET /announce", ascii "GET /scrape"]

variable {inet : Inet} {announceInterval : Int} {e : ClientEnv} {db : Db}

/-! ## Parsing -/

theorem charIndex_append_left {s : Bytes} {b : UInt8} {i : Nat} (h : charIndex s b = some i) (t : Bytes) :
    charIndex (s ++ t) b = some i := by
  induction s generalizing i with
  | nil => simp [charIndex] at h
  | cons x s ih =>
    simp only [charIndex] at h
    split at h
    · rename_i hx
      simp [charIndex, hx, Option.some.inj h]
    · rename_i hx
      obtain ⟨j, hj, rfl⟩ := Option.map_eq_some_iff.1 h
      simp [charIndex, hx, ih hj]

theorem charIndex_lt {s : Bytes} {b : UInt8} {i : Nat} (h : charIndex s b = some i) : i < s.length :=
  (List.getElem?_eq_some_iff.1 (charIndex_some h)).1

/-- The string in a buffer starts with the string in a first part of it. -/
theorem cstr_append_first (a b : Bytes) : ∃ t, cstr (a ++ b) = cstr a ++ t := by
  by_cases ha : NoNul a
  · exact ⟨cstr b, by rw [cstr_append ha, cstr_of_noNul ha]⟩
  · obtain ⟨s, t, rfl⟩ := List.append_of_mem (not_not.1 ha)
    refine ⟨[], ?_⟩
    rw [List.append_assoc, List.cons_append, cstr_append_nul_any, cstr_append_nul_any, List.append_nil]

/-- An announce whose target is not over yet waits; any other is what it is with more behind it. -/
theorem announceRequest_first (inet : Inet) (q t : Bytes) (conn : Option SockAddr) :
    announceRequest inet q conn = .pending plainWrong ∨ announceRequest inet (q ++ t) conn = announceRequest inet q conn := by
  cases conn with
  | none => exact Or.inr rfl
  | some conn =>
    cases hc : charIndex q 32 with
    | none => exact Or.inl (by simp only [announceRequest, hc])
    | some c =>
      right
      have hlt := charIndex_lt hc
      simp only [announceRequest, hc, charIndex_append_left hc, List.take_append_of_le_length (Nat.le_of_lt hlt)]

/-- A scrape is parsed without reading outside the arrays, and alike whatever they hold. -/
theorem parseScrape_some {buffer : Bytes} (hb : NoNul buffer) :
    ∃ request, ∀ hashbuf, parseScrape hashbuf buffer = some request := by
  cases ht : textAfter buffer (ascii "info_hash=") with
  | none => exact ⟨.scrape none, fun hashbuf => by simp only [parseScrape, ht]⟩
  | some hash =>
    have hn := hb.of_suffix (textAfter_suffix ht)
    cases hl : hasHashLength hash with
    | true =>
      refine ⟨.scrape (some (hexEncode (valueHash (paramValue hash)))), fun hashbuf => ?_⟩
      simp only [parseScrape, ht, hl, if_true, scrapeHash_eq hn hl, Option.map_some]
    | false => exact ⟨.pending [], fun hashbuf => by simp only [parseScrape, ht, hl, Bool.false_eq_true, if_false]⟩

/-- So is a scrape request. -/
theorem scrapeRequest_first {q : Bytes} (hq : NoNul q) (t : Bytes) :
    (∀ hashbuf, scrapeRequest hashbuf q = some (.pending plainWrong)) ∨
    ∃ request, ∀ hashbuf, scrapeRequest hashbuf q = some request ∧ scrapeRequest hashbuf (q ++ t) = some request := by
  cases hc : charIndex q 32 with
  | none => exact Or.inl fun hashbuf => by simp only [scrapeRequest, hc]
  | some c =>
    right
    have hlt := charIndex_lt hc
    obtain ⟨request, hr⟩ := parseScrape_some (hq.of_sublist (List.take_sublist c q))
    refine ⟨request, fun hashbuf => ⟨?_, ?_⟩⟩
    · simp only [scrapeRequest, hc, hr]
    · simp only [scrapeRequest, charIndex_append_left hc, List.take_append_of_le_length (Nat.le_of_lt hlt), hr]

theorem noNul_commands {command : Bytes} (h : command ∈ commands) : NoNul command := by
  have hall : ∀ command ∈ commands, NoNul command := by decide
  exact hall command h

theorem ne_nil_of_mem_commands {command : Bytes} (h : command ∈ commands) : command ≠ [] := by
  have hall : ∀ command ∈ commands, command ≠ [] := by decide
  exact hall command h

/-- A first part of a request that has the whole command is parsed as a request that waits, or as the whole request is. -/
theorem parseRequest_first (inet : Inet) {command : Bytes} (hc : command ∈ commands) (q t : Bytes) (conn : Option SockAddr) :
    (∀ hashbuf, parseRequest inet hashbuf (cstr (command ++ q)) conn = some (.pending plainWrong)) ∨
    ∃ request, ∀ hashbuf, parseRequest inet hashbuf (cstr (command ++ q)) conn = some request ∧
      parseRequest inet hashbuf (cstr (command ++ (q ++ t))) conn = some request := by
  obtain ⟨u, hu⟩ := cstr_append_first q t
  rw [cstr_append (noNul_commands hc), cstr_append (noNul_commands hc), hu]
  simp only [commands, List.mem_cons, List.not_mem_nil, or_false] at hc
  rcases hc with rfl | rfl
  · simp only [parseRequest_announce]
    rcases announceRequest_first inet (cstr q) u conn with h | h
    · exact Or.inl fun _ => by rw [h]
    · exact Or.inr ⟨_, fun _ => ⟨rfl, by rw [h]⟩⟩
  · simp only [parseRequest_scrape]
    exact scrapeRequest_first (noNul_cstr q) u

/-- A first part of a command is no command. -/
theorem parseRequest_early (inet : Inet) {command p : Bytes} (hc : command ∈ commands) (hp : p <+: command)
    (hlt : p.length < command.length) (hashbuf : Vector UInt8 61) (conn : Option SockAddr) :
    parseRequest inet hashbuf (cstr p) conn = some (.reply milhouse) ∨
    parseRequest inet hashbuf (cstr p) conn = some (.reply notSupported) := by
  have hother : ∀ c ∈ commands, ∀ c' ∈ commands, c' <+: c → c' = c := by decide
  have hp0 : NoNul p := (noNul_commands hc).of_sublist hp.sublist
  rw [cstr_of_noNul hp0]
  have habsurd : ∀ c' ∈ commands, ∀ t, p ≠ c' ++ t := by
    rintro c' hc' t rfl
    obtain rfl := hother command hc c' hc' ((List.prefix_append c' t).trans hp)
    simp at hlt
  rcases parseRequest_cases inet hashbuf p conn with ⟨t, ht⟩ | ⟨t, ht⟩ | h | h
  · exact absurd ht (habsurd _ (by simp [commands]) t)
  · exact absurd ht (habsurd _ (by simp [commands]) t)
  · exact Or.inl h
  · exact Or.inr h

/-! ## The reply to a whole request -/

/-- The headers in front of a reply. -/
def okHeaders : Bytes := (sendHttpHeaders (ascii "200 OK") standardHeader).flatten

/-- What a whole announce or scrape can be answered with: nothing, a dictionary, or the refusal of a scrape of everything. -/
def WholeReply (sent : List Bytes) : Prop :=
  sent.flatten = [] ∨ (∃ body, sent.flatten = okHeaders ++ 100 :: body) ∨
    sent = sendHttpHeaders (ascii "501 Not Implemented") standardHeader

theorem wholeReply_dictionary {piece body : Bytes} (h : piece = 100 :: body) (pieces : List Bytes) :
    WholeReply (sendHttpHeaders (ascii "200 OK") standardHeader ++ piece :: pieces) := by
  refine Or.inr (Or.inl ⟨body ++ pieces.flatten, ?_⟩)
  rw [List.flatten_append, List.flatten_cons, h, okHeaders, List.cons_append]

/-- Every reply of `track` opens a dictionary. -/
theorem track_wholeReply {ar : AnnounceRequest} {effects : Effects} {te : TrackEnv}
    (h : track inet ar announceInterval te db = some effects) : WholeReply effects.sent := by
  obtain ⟨ar', -, h⟩ := Option.bind_eq_some_iff.1 h
  simp only at h
  split at h
  · obtain rfl := Option.some.inj h
    exact wholeReply_dictionary rfl []
  · split at h
    · obtain rfl := Option.some.inj h
      exact wholeReply_dictionary rfl []
    · split at h
      · obtain rfl := Option.some.inj h
        exact wholeReply_dictionary rfl []
      · split at h
        · obtain rfl := Option.some.inj h
          exact wholeReply_dictionary rfl []
        · obtain ⟨r, -, h⟩ := Option.bind_eq_some_iff.1 h
          obtain rfl := Option.some.inj h
          exact wholeReply_dictionary rfl _

theorem scrape_wholeReply (hash : Option Bytes) (se : ScrapeEnv) : WholeReply (scrape hash se db).sent := by
  cases hash with
  | none => exact Or.inr (Or.inr rfl)
  | some hash =>
    simp only [scrape]
    split
    · exact wholeReply_dictionary rfl []
    · split
      · exact wholeReply_dictionary rfl []
      · exact wholeReply_dictionary rfl []

/-- An announce or a scrape is not answered at once with a page. -/
theorem parseRequest_ne_reply {command : Bytes} (hc : command ∈ commands) (q : Bytes) (hashbuf : Vector UInt8 61)
    (conn : Option SockAddr) (sent : List Bytes) :
    parseRequest inet hashbuf (cstr (command ++ q)) conn ≠ some (.reply sent) := by
  intro h
  rw [cstr_append (noNul_commands hc)] at h
  simp only [commands, List.mem_cons, List.not_mem_nil, or_false] at hc
  rcases hc with rfl | rfl
  · rw [parseRequest_announce, Option.some.injEq] at h
    rcases announceRequest_cases inet (cstr q) conn with hr | ⟨late, hr⟩ | ⟨ar, hr⟩
    · cases hr.symm.trans h
    · cases hr.symm.trans h
    · cases hr.symm.trans h
  · rw [parseRequest_scrape] at h
    rcases scrapeRequest_some h with ⟨late, hr⟩ | ⟨hash, hr⟩
    · cases hr
    · cases hr

/-- What serving a request before the client has had its time comes to, at any pass. -/
theorem serve_request (announceInterval : Int) (e : ClientEnv) (db : Db) {stack : Stack} {received : Bytes}
    {conn : Option SockAddr} {request : Request}
    (h : parseRequest inet stack.hashbuf (cstr received) conn = some request) (hr : ∀ sent, request ≠ .reply sent) :
    ∃ effects handled, (∀ n < maxRecvIter, serve inet n announceInterval e db request = some (effects, handled)) ∧
      (handled = false → effects = Effects.none db) ∧ WholeReply effects.sent := by
  cases request with
  | announce ar =>
    have hb : Builds inet ar := by
      refine ⟨stack, some received, conn, ?_⟩
      simp only [peekRequest, bufText, cstr_append_nul_any, Option.bind_eq_bind, Option.bind_some, h]
    obtain ⟨infoHash, hp⟩ := prepareData_built hb.built
    obtain ⟨effects, ht, -⟩ := track_lookups inet hp announceInterval e.track db
    exact ⟨effects, true, fun n _ => by simp only [serve, ht, Option.map_some], by simp, track_wholeReply ht⟩
  | scrape hash => exact ⟨_, true, fun n _ => rfl, by simp, scrape_wholeReply hash e.scrape⟩
  | reply sent => exact absurd rfl (hr sent)
  | dropped => exact ⟨_, true, fun n _ => rfl, by simp, Or.inl rfl⟩
  | pending late =>
    refine ⟨_, false, fun n hn => ?_, fun _ => rfl, Or.inl rfl⟩
    simp only [serve, if_neg (Nat.not_le_of_lt hn)]
    rfl

/-- What a pass makes of a request that has arrived whole, and of any first part of it that has the whole command. -/
theorem parseSocket_first {command : Bytes} (hc : command ∈ commands) (t : Bytes) (hlen : (command ++ t).length < recvSize) :
    ∃ effects handled, (handled = false → effects = Effects.none db) ∧ WholeReply effects.sent ∧
      (∀ stack, ∀ n < maxRecvIter,
        parseSocket inet stack n (some (command ++ t)) announceInterval e db = some (effects, handled)) ∧
      ∀ q, q <+: t → ∀ stack, ∀ n < maxRecvIter,
        parseSocket inet stack n (some (command ++ q)) announceInterval e db = some (Effects.none db, false) ∨
        parseSocket inet stack n (some (command ++ q)) announceInterval e db = some (effects, handled) := by
  have hne : ∀ q, command ++ q ≠ [] := by
    intro q hq
    exact ne_nil_of_mem_commands hc (List.append_eq_nil_iff.1 hq).1
  -- the request, which does not depend on what the arrays hold
  obtain ⟨request, hw⟩ : ∃ request, ∀ hashbuf,
      parseRequest inet hashbuf (cstr (command ++ t)) e.conn = some request := by
    rcases parseRequest_first inet hc t [] e.conn with h | ⟨request, h⟩
    · exact ⟨_, h⟩
    · exact ⟨request, fun hashbuf => (h hashbuf).1⟩
  have hr : ∀ sent, request ≠ .reply sent := by
    rintro sent rfl
    exact parseRequest_ne_reply hc t (Vector.replicate 61 0) e.conn sent (hw _)
  let stack : Stack := { buf := Vector.replicate 1024 0, hashbuf := Vector.replicate 61 0 }
  obtain ⟨effects, handled, hs, hn, hreply⟩ := serve_request announceInterval e db (hw stack.hashbuf) hr
  refine ⟨effects, handled, hn, hreply, fun stack n hlt => ?_, fun q hq stack n hlt => ?_⟩
  · rw [parseSocket_received (hne t) hlen, hw, Option.bind_some, hs n hlt]
  · obtain ⟨u, rfl⟩ := hq
    have hlen' : (command ++ q).length < recvSize := by
      simp only [List.length_append] at hlen ⊢
      omega
    rw [parseSocket_received (hne q) hlen']
    rcases parseRequest_first inet hc q u e.conn with h | ⟨request', h⟩
    · left
      rw [h, Option.bind_some]
      simp only [serve, if_neg (Nat.not_le_of_lt hlt)]
      rfl
    · right
      obtain ⟨h1, h2⟩ := h stack.hashbuf
      obtain rfl := Option.some.inj (h2.symm.trans (hw _))
      rw [h1, Option.bind_some, hs n hlt]

/-- What a pass makes of some bytes that are not yet a command. -/
theorem parseSocket_early {command p : Bytes} (hc : command ∈ commands) (hp : p <+: command) (h0 : p ≠ [])
    (hlt : p.length < command.length) (stack : Stack) (n : Nat) :
    ∃ sent, (sent = milhouse ∨ sent = notSupported) ∧
      parseSocket inet stack n (some p) announceInterval e db = some ({ sent := sent, lookups := [], db := db }, true) := by
  have hall : ∀ command ∈ commands, command.length < recvSize := by decide
  have hlen := hall command hc
  rw [parseSocket_received h0 (by omega)]
  rcases parseRequest_early inet hc hp hlt stack.hashbuf e.conn with h | h
  · exact ⟨milhouse, Or.inl rfl, by rw [h]; rfl⟩
  · exact ⟨notSupported, Or.inr rfl, by rw [h]; rfl⟩

/-- The answers to other requests are no reply to a whole request. -/
theorem ne_wholeReply {sent sent' : List Bytes} (h : sent = milhouse ∨ sent = notSupported) (hw : WholeReply sent') :
    sent.flatten ≠ sent'.flatten := by
  have hm : milhouse.flatten = okHeaders ++ 77 :: milhouse.flatten.drop (okHeaders.length + 1) := by decide +kernel
  have hs : notSupported.flatten = (ascii "HTTP/1.1 4") ++ notSupported.flatten.drop 10 := by decide +kernel
  intro heq
  rcases hw with hw | ⟨body, hw⟩ | rfl
  · rw [hw] at heq
    rcases h with rfl | rfl
    · revert heq
      decide
    · revert heq
      decide
  · rw [hw] at heq
    rcases h with rfl | rfl
    · rw [hm] at heq
      exact absurd (List.cons.inj (List.append_cancel_left heq)).1 (by decide)
    · rw [hs] at heq
      have hten := congrArg (List.take 10) heq
      rw [List.take_append_of_le_length (by decide), List.take_append_of_le_length (by decide)] at hten
      revert hten
      decide
  · rcases h with rfl | rfl
    · revert heq
      decide
    · revert heq
      decide +kernel

end Traccoon
