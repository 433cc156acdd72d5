import Traccoon.Lemmas.LooksUp
import Traccoon.Lemmas.ParamValues
import Traccoon.Lemmas.SentHash

/-!
# The torrent that `getpeers -h` asks for

`getpeers` accepts a hash in either letter case, and decodes it with a decoder that knows the lower-case digits only and whose failure it
does not look at. So its request makes the tracker look up the hash named exactly when that was written without capital letters, as
long as the request fits what the tracker peeks at (`getpeers_looksUp_iff`).
-/

namespace Traccoon

open CString Getpeers

namespace GetpeersHashAux

/-- The parameters in front of the event. -/
def sentParams (hash peerid : Bytes) (port numwant : DigitString) : List Query.Param :=
  [{ name := ascii "info_hash", value := urlEncode hash, name_text := infoHash_text, value_text := urlEncode_text hash },
    { name := ascii "port", value := port.val, name_text := port_text, value_text := digits_text port },
    { name := ascii "numwant", value := numwant.val, name_text := by decide +kernel, value_text := digits_text numwant },
    { name := ascii "peer_id", value := urlEncode peerid, name_text := peerId_text, value_text := urlEncode_text peerid }]
where
  digits_text (s : DigitString) : ∀ b ∈ s.val, b ∉ Query.separators := by
    intro b hb hs
    have hall : ∀ b ∈ Query.separators, isDigit b = false := by decide +kernel
    exact absurd (s.property b hb) (by rw [hall b hs]; exact Bool.false_ne_true)

/-! ## The text of the request -/

theorem noNul_stringMerge (parts : List Bytes) : NoNul (stringMerge parts) := by
  intro h
  obtain ⟨s, hs, h0⟩ := List.mem_flatten.1 h
  obtain ⟨p, -, rfl⟩ := List.mem_map.1 hs
  exact noNul_cstr p h0

/-- The first blank of a text. -/
theorem split_blank (s t : Bytes) : ∃ a b, s ++ 32 :: t = a ++ 32 :: b ∧ 32 ∉ a ∧ a <+: s := by
  induction s with
  | nil => exact ⟨[], t, rfl, by simp, List.prefix_refl _⟩
  | cons c s ih =>
    by_cases hc : c = 32
    · exact ⟨[], s ++ 32 :: t, by rw [hc]; rfl, by simp, List.nil_prefix⟩
    · obtain ⟨a, b, hab, ha, hp⟩ := ih
      refine ⟨c :: a, b, by rw [List.cons_append, hab]; rfl, ?_, List.cons_prefix_cons.2 ⟨rfl, hp⟩⟩
      simp [ha, Ne.symm hc]

/-- What is sent behind the peer id: the event, if there is one, and the compact flag. -/
def endText (o : Settings) : Bytes :=
  cstr (if o.btEvent.isSome then ascii "&event=" else []) ++
    (cstr (o.btEvent.getD []) ++ (ascii "&compact=" ++ if o.requestCompact then ascii "1" else ascii "0"))

theorem endText_amp (o : Settings) : ∃ more, endText o = 38 :: more := by
  rw [endText]
  cases o.btEvent with
  | none => exact ⟨_, rfl⟩
  | some s => exact ⟨_, rfl⟩

theorem cstr_digits (s : DigitString) : cstr s.val = s.val := cstr_of_noNul (noNul_of_digits s.property)

/-- The path: the parameters in a fixed order, then the event, if there is one, and the compact flag. -/
theorem path_eq {o : Settings} {hash bs : Bytes} (hh : cstr hash = urlEncode bs) :
    stringMerge (pathParts o hash (ascii "announce")) =
      ascii "announce" ++ 63 :: (Query.render (sentParams bs (o.peerid.toList.take maxHashLen) o.port o.peers) ++ endText o) := by
  have hlit : ∀ s ∈ [ascii "announce", ascii "?info_hash=", ascii "&port=", ascii "&numwant=", ascii "&peer_id=", ascii "&compact="],
      cstr s = s := by
    decide
  simp only [List.mem_cons, List.not_mem_nil, or_false, forall_eq_or_imp, forall_eq] at hlit
  obtain ⟨h1, h2, h3, h4, h5, h6⟩ := hlit
  have hport : cstr ((o.localPort.map Subtype.val).getD (ascii "6969")) = o.port.val := by
    rw [Settings.port]
    cases o.localPort with
    | none => decide
    | some n => exact cstr_digits n
  have hpeers : cstr ((o.numwant.map Subtype.val).getD (ascii "50")) = o.peers.val := by
    rw [Settings.peers]
    cases o.numwant with
    | none => decide
    | some n => exact cstr_digits n
  have hpeer := @cstr_hashEncodeURL o.peerid.toList (maxUrlencHashLen + 1) (Nat.le_succ _)
    (Or.inl (Nat.lt_succ_self _))
  have hcompact : cstr (if o.requestCompact then ascii "1" else ascii "0") = if o.requestCompact then ascii "1" else ascii "0" := by
    cases o.requestCompact
    · decide
    · decide
  simp only [stringMerge, pathParts, List.map_cons, List.map_nil, List.flatten_cons, List.flatten_nil, List.append_nil, h1, h2, h3, h4,
    h5, h6, hh, hport, hpeers, hpeer, hcompact]
  simp only [endText, Query.render, Query.renderTail, sentParams, List.append_nil, List.append_assoc]
  have e1 : ascii "?info_hash=" = 63 :: (ascii "info_hash" ++ [61]) := by decide
  have e2 : ascii "&port=" = 38 :: (ascii "port" ++ [61]) := by decide
  have e3 : ascii "&numwant=" = 38 :: (ascii "numwant" ++ [61]) := by decide
  have e4 : ascii "&peer_id=" = 38 :: (ascii "peer_id" ++ [61]) := by decide
  rw [e1, e2, e3, e4]
  simp only [List.append_assoc, List.cons_append, List.nil_append]

/-- The request is that path behind `GET /`, and a blank behind it. -/
theorem request_path {o : Settings} {url : UrlComponents} (hpath : url.path = ascii "announce") {hash : Bytes}
    (he : encodeHash o.hash.toList = some hash) :
    ∃ rest, request o url = some (ascii "GET /" ++ (stringMerge (pathParts o hash (ascii "announce")) ++ 32 :: rest)) := by
  have hp0 := noNul_stringMerge (pathParts o hash (ascii "announce"))
  have hget : cstr (ascii "GET /") = ascii "GET /" := by decide
  have hblank : cstr (ascii " HTTP/1.1\r\n") = 32 :: ascii "HTTP/1.1\r\n" := by decide
  simp only [request, he, Option.bind_eq_bind, Option.bind_some, hpath, Option.pure_def, Option.some.injEq]
  rw [stringMerge, requestParts, List.map_cons, List.flatten_cons, hget, List.map_cons, List.flatten_cons, cstr_of_noNul hp0,
    List.map_cons, List.flatten_cons, hblank]
  exact ⟨_, rfl⟩

theorem announce_slash : ascii "GET /announce" = ascii "GET /" ++ ascii "announce" := by decide

/-- The request is an announce with these parameters in front of its first blank. -/
theorem request_eq {o : Settings} {url : UrlComponents} (hpath : url.path = ascii "announce") {hash bs : Bytes}
    (he : encodeHash o.hash.toList = some hash) (hh : cstr hash = urlEncode bs) :
    ∃ more rest, NoNul more ∧ 32 ∉ more ∧ request o url = some (announceText
      (63 :: (Query.render (sentParams bs (o.peerid.toList.take maxHashLen) o.port o.peers) ++ 38 :: more)) rest) := by
  have hp0 := noNul_stringMerge (pathParts o hash (ascii "announce"))
  obtain ⟨rest, hrest⟩ := request_path hpath he
  obtain ⟨more, hmore⟩ := endText_amp o
  rw [path_eq hh, hmore] at hp0 hrest
  obtain ⟨a, b, hab, ha, hpre⟩ := split_blank more rest
  refine ⟨a, b, ?_, ha, ?_⟩
  · refine hp0.of_sublist (hpre.sublist.trans ?_)
    exact ((List.sublist_cons_self _ _).trans (List.sublist_append_right _ _)).trans
      ((List.sublist_cons_self _ _).trans (List.sublist_append_right _ _))
  · rw [hrest, announceText, announce_slash]
    simp only [List.append_assoc, List.cons_append, hab]

/-! ## What the tracker finds in it -/

/-- A parameter found in a query is found in front of more text. -/
theorem textAfter_render {key t : Bytes} {ps : List Query.Param} (hk : 61 ∉ key) (hk' : 38 ∉ key) (hq : 63 ∉ key)
    (h : Query.found key [] ps = some (key ++ 61 :: t)) (u : Bytes) :
    textAfter (63 :: (Query.render ps ++ u)) (key ++ [61]) = some (t ++ u) := by
  have hs := @Query.strstr_cons_render _ [] _ hk hk' (by simp) hq (by decide) ps
  rw [h] at hs
  have hu := strstr_append hs u
  rw [List.cons_append] at hu
  rw [textAfter, hu, Option.map_some, List.append_assoc, List.cons_append, Query.drop_key]

/-- The request carries the hash, and a peer id of twenty bytes. -/
theorem carries_sentParams {bs peerid : Bytes} (hp : peerid.length = maxHashLen) (port numwant : DigitString) (more : Bytes) :
    Carries (63 :: (Query.render (sentParams bs peerid port numwant) ++ 38 :: more)) (urlEncode bs) ∧
    HasPeer (63 :: (Query.render (sentParams bs peerid port numwant) ++ 38 :: more)) := by
  have hinfo : ascii "info_hash=" = ascii "info_hash" ++ [61] := by decide
  have hpeer : ascii "peer_id=" = ascii "peer_id" ++ [61] := by decide
  have hport : ascii "port=" = ascii "port" ++ [61] := by decide
  have n1 : ¬(ascii "peer_id" <:+ ascii "info_hash" ∧ ([] : Bytes) <+: urlEncode bs) := fun h => absurd h.1 (by decide)
  have n2 : ¬(ascii "peer_id" <:+ ascii "port" ∧ ([] : Bytes) <+: port.val) := fun h => absurd h.1 (by decide)
  have n3 : ¬(ascii "peer_id" <:+ ascii "numwant" ∧ ([] : Bytes) <+: numwant.val) := fun h => absurd h.1 (by decide)
  have n4 : ¬(ascii "port" <:+ ascii "info_hash" ∧ ([] : Bytes) <+: urlEncode bs) := fun h => absurd h.1 (by decide)
  have hself : ∀ key v : Bytes, key <:+ key ∧ ([] : Bytes) <+: v := fun key v => ⟨List.suffix_refl _, List.nil_prefix⟩
  have finfo : Query.found (ascii "info_hash") [] (sentParams bs peerid port numwant) =
      some (ascii "info_hash" ++ 61 :: (urlEncode bs ++ Query.renderTail ((sentParams bs peerid port numwant).drop 1))) := by
    rw [sentParams, Query.found, if_pos (hself _ _)]
    rfl
  have fpeer : Query.found (ascii "peer_id") [] (sentParams bs peerid port numwant) =
      some (ascii "peer_id" ++ 61 :: urlEncode peerid) := by
    rw [sentParams, Query.found, if_neg n1, Query.found, if_neg n2, Query.found, if_neg n3, Query.found, if_pos (hself _ _),
      Query.renderTail, List.append_nil]
  have fport : Query.found (ascii "port") [] (sentParams bs peerid port numwant) =
      some (ascii "port" ++ 61 :: (port.val ++ Query.renderTail ((sentParams bs peerid port numwant).drop 2))) := by
    rw [sentParams, Query.found, if_neg n4, Query.found, if_pos (hself _ _)]
    rfl
  have key : ∀ {key t : Bytes}, 61 ∉ key → 38 ∉ key → 63 ∉ key →
      Query.found key [] (sentParams bs peerid port numwant) = some (key ++ 61 :: t) →
      textAfter (63 :: (Query.render (sentParams bs peerid port numwant) ++ 38 :: more)) (key ++ [61]) = some (t ++ 38 :: more) :=
    fun h1 h2 h3 h => textAfter_render h1 h2 h3 h (38 :: more)
  constructor
  · rw [Carries, hinfo, key (by decide) (by decide) (by decide) finfo]
    exact ⟨Query.renderTail ((sentParams bs peerid port numwant).drop 1) ++ 38 :: more, by rw [List.append_assoc], Or.inr ⟨_, rfl⟩⟩
  · rw [HasPeer, hpeer, hport, key (by decide) (by decide) (by decide) fpeer, key (by decide) (by decide) (by decide) fport]
    refine ⟨_, _, rfl, ?_, rfl⟩
    rw [urlEncode_eq]
    exact (value_text (by rw [List.length_map, hp]) (Or.inr ⟨more, rfl⟩)).1

/-- The request looks up the hash sent. -/
theorem request_looksUp (inet : Inet) (conn : SockAddr) {x : Bytes} (hlen : x.length = maxHexencHashLen)
    (hx : ∀ b ∈ x, isXDigit b = true) {o : Settings} (ho : hashArgument (List.replicate 61 0) x = .ok o.hash.toList)
    {url : UrlComponents} (hpath : url.path = ascii "announce") :
    ∃ text, request o url = some text ∧ (text.length < recvSize → LooksUp inet text conn (hexEncode (sentHash x))) := by
  obtain ⟨hash, he, hh⟩ := encodeHash_digits hlen fun b hb => mem_hexDigits (hx b hb)
  rw [hashArgument_digits hlen hx, Except.ok.injEq] at ho
  rw [ho] at he
  obtain ⟨more, rest, hmore, hblank, hreq⟩ := request_eq hpath he hh
  refine ⟨_, hreq, ?_⟩
  intro hsize
  have hpeer : (o.peerid.toList.take maxHashLen).length = maxHashLen := by
    rw [List.length_take, Vector.length_toList]
    rfl
  have hsent := length_sentHash hlen
  obtain ⟨hcarries, hhas⟩ := @carries_sentParams (sentHash x) _ hpeer o.port o.peers more
  obtain ⟨h0, h32⟩ := Query.noNul_render (sentParams (sentHash x) (o.peerid.toList.take maxHashLen) o.port o.peers)
  rw [urlEncode_eq] at hcarries
  have hlook := announce_looksUp inet conn (by simpa [NoNul, h0] using ⟨h0, hmore⟩) (by simpa [h32] using hblank) hsize
    (by rw [List.length_map, hsent]) hcarries hhas
  rwa [valueHash_urlEncode hsent] at hlook

end GetpeersHashAux

open GetpeersHashAux

/-- `getpeers` accepts every text of forty hexadecimal digits for `-h`. The request it then makes for a tracker with the path `announce`,
whatever the other settings, host and port, makes the tracker look up the text in lower case exactly when it was written without
capital letters and the whole request is shorter than what the tracker peeks at. -/
theorem getpeers_looksUp_iff (inet : Inet) (conn : SockAddr) (x : Bytes) (hlen : x.length = maxHexencHashLen)
    (hx : ∀ b ∈ x, isXDigit b = true) :
    (∃ hash : Vector UInt8 61, hashArgument (List.replicate 61 0) x = .ok hash.toList) ∧
    ∀ (o : Settings) (url : UrlComponents), hashArgument (List.replicate 61 0) x = .ok o.hash.toList → url.path = ascii "announce" →
      ∃ text, request o url = some text ∧
        (LooksUp inet text conn (strtolower x) ↔ (∀ b ∈ x, b ∈ hexdict) ∧ text.length < recvSize) := by
  constructor
  · have hsize : (x ++ List.replicate 21 (0 : UInt8)).length = 61 := by
      rw [List.length_append, hlen, List.length_replicate]
      rfl
    refine ⟨⟨(x ++ List.replicate 21 0).toArray, by simpa using hsize⟩, ?_⟩
    rw [hashArgument_digits hlen hx]
    simp [Vector.toList]
  · intro o url ho hpath
    obtain ⟨text, hreq, hlook⟩ := request_looksUp inet conn hlen hx ho hpath
    refine ⟨text, hreq, ?_⟩
    rw [← hexEncode_sentHash_iff hlen fun b hb => mem_hexDigits (hx b hb)]
    constructor
    · intro h
      by_cases hsize : text.length < recvSize
      · exact ⟨looksUp_unique (hlook hsize) h, hsize⟩
      · exact absurd h (not_looksUp_long (by omega) conn _)
    · intro h
      rw [← h.1]
      exact hlook h.2

namespace GetpeersHashExample

/-- A hash of zeros, reserved and unreserved characters, in lower case. -/
def lower : Bytes := ascii "0000000000262f3f41617e2d2e5f61626364abff"

/-- A hash whose second byte is written with a capital letter. -/
def capital : Bytes := ascii "00A0000000262f3f41617e2d2e5f61626364abff"

/-- The array after `-h`, the default settings, and some peer id. -/
def settings (x : Bytes) (h : (x ++ List.replicate 21 (0 : UInt8)).length = 61) : Settings :=
  { hash := ⟨(x ++ List.replicate 21 0).toArray, by simpa using h⟩
    peerid := ⟨(ascii "-TC0010-000000000001" ++ List.replicate 41 0).toArray, by decide⟩
    numwant := none
    localPort := none
    btEvent := none
    requestCompact := false }

def url : UrlComponents := { host := ascii "10.0.0.1", port := ascii "6969", path := ascii "announce" }

def conn : SockAddr := .in4 #v[10, 0, 0, 2]

end GetpeersHashExample

open GetpeersHashExample

/-- A hash in lower case is looked up. -/
theorem getpeers_looksUp_iff_lower :
    ∃ text, request (settings lower (by decide)) url = some text ∧ LooksUp PlainInet.inet text conn lower := by
  obtain ⟨text, hreq, hiff⟩ := (getpeers_looksUp_iff PlainInet.inet conn lower (by decide) (by decide +kernel)).2
    (settings lower (by decide)) url (by decide) rfl
  refine ⟨text, hreq, ?_⟩
  have hlow : strtolower lower = lower := by decide
  have hsize : (request (settings lower (by decide)) url).map (fun t => decide (t.length < recvSize)) = some true := by decide +kernel
  rw [hreq, Option.map_some, Option.some.injEq, decide_eq_true_eq] at hsize
  rw [← hlow]
  exact hiff.2 ⟨by decide +kernel, hsize⟩

/-- With a capital letter in its second byte it is not: the tracker is asked for the text of the byte 0 and of nineteen characters. -/
theorem not_getpeers_looksUp_capital :
    hashArgument (List.replicate 61 0) capital = .ok (settings capital (by decide)).hash.toList ∧
    ∃ text, request (settings capital (by decide)) url = some text ∧
      LooksUp PlainInet.inet text conn (ascii "0030413030303030303032363266336634313631") ∧
      ¬LooksUp PlainInet.inet text conn (strtolower capital) := by
  have ho : hashArgument (List.replicate 61 0) capital = .ok (settings capital (by decide)).hash.toList := by decide
  obtain ⟨text, hreq, hlook⟩ := request_looksUp PlainInet.inet conn (x := capital) (by decide) (by decide +kernel) ho
    (show url.path = ascii "announce" from rfl)
  have hsize : (request (settings capital (by decide)) url).map (fun t => decide (t.length < recvSize)) = some true := by decide +kernel
  have hsent : hexEncode (sentHash capital) = ascii "0030413030303030303032363266336634313631" := by decide
  rw [hreq, Option.map_some, Option.some.injEq, decide_eq_true_eq] at hsize
  rw [hsent] at hlook
  refine ⟨ho, text, hreq, hlook hsize, ?_⟩
  intro h
  have hne : ascii "0030413030303030303032363266336634313631" ≠ strtolower capital := by decide
  exact hne (looksUp_unique (hlook hsize) h)

end Traccoon
