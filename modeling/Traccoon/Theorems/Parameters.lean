import Traccoon.Lemmas.ParamValues

/-!
# Which parameter a field is read from

`parseSocket` searches the request target for `key=`, so a field is read from the first parameter whose name ends in its key:
`peer_id` from a `no_peer_id` in front of it, `port` from a `support`. A flag of an announce that has its three mandatory parameters is set
by any parameter whose name ends in its key and whose value starts with a 1. The request built is read by name, and is the same for every
order of the parameters, exactly when no such parameter is about and the length check does not depend on what stands last
(`parsesByName_iff`).
-/

namespace Traccoon

open CString Query

/-- The request target behind the path: the query string. -/
def target (ps : List Param) : Bytes := 63 :: render ps

/-- The keys of the fields that `parseSocket` points to. -/
def fieldKeys : List Bytes :=
  [ascii "info_hash", ascii "peer_id", ascii "port", ascii "event", ascii "numwant", ascii "left"]

/-- The keys of the flags. -/
def flagKeys : List Bytes := [ascii "compact", ascii "no_peer_id"]

/-- The three parameters without which no flag is looked for and no request is built are there. -/
def HasMandatory (ps : List Param) : Prop := ∀ key ∈ [ascii "info_hash", ascii "peer_id", ascii "port"], valueOf key ps ≠ none

/-- Every field is read at the parameter of its name, and is missing when there is none; a flag that is looked for is set exactly when the
parameter of its name has the value 1. -/
structure ReadsByName (ps : List Param) : Prop where
  fields : ∀ key ∈ fieldKeys, textAfter (target ps) (key ++ ascii "=") = named key ps
  flags : HasMandatory ps → ∀ key ∈ flagKeys, (strstr (target ps) (key ++ ascii "=1")).isSome ↔ valueOf key ps = some (ascii "1")

/-- The request that is passed to `track`. -/
def Request.built : Request → Option AnnounceRequest
  | .announce ar => some ar
  | _ => none

/-- The request built from a query. -/
def builtFrom (inet : Inet) (conn : SockAddr) (ps : List Param) : Option AnnounceRequest :=
  (parseAnnounce inet (target ps) conn).built

/-- In every order the parameters are read by name, and the request built is the same. -/
def ParsesByName (inet : Inet) (conn : SockAddr) (ps : List Param) : Prop :=
  ∀ qs, qs.Perm ps → ReadsByName qs ∧ builtFrom inet conn qs = builtFrom inet conn ps

/-- A flag that is looked for and found is the parameter of its name with the value 1. -/
def FlagsExact (ps : List Param) : Prop :=
  HasMandatory ps → ∀ key ∈ flagKeys, (∃ p ∈ ps, key <:+ p.name ∧ ascii "1" <+: p.value) → valueOf key ps = some (ascii "1")

/-- The length check of a hash and a peer id gives the same result whether one of them is the last of the query or not. It takes the
bytes behind a cut escape for part of it, if there are any. -/
def SteadyLengths (ps : List Param) : Prop :=
  ∀ hash peerid, valueOf (ascii "info_hash") ps = some hash → valueOf (ascii "peer_id") ps = some peerid →
    valueOf (ascii "port") ps ≠ none →
    (lengthCheck true hash && lengthCheck false peerid) = (lengthCheck false hash && lengthCheck false peerid) ∧
    (lengthCheck false hash && lengthCheck true peerid) = (lengthCheck false hash && lengthCheck false peerid)

/-- In this order, the first name that ends in the key of a field is that key. -/
structure KeysLead (ps : List Param) : Prop where
  fields : ∀ key ∈ fieldKeys, NamedFirst key ps
  flags : FlagsExact ps

/-- No name but the key itself ends in the key of a field. -/
structure KeysApart (ps : List Param) : Prop where
  fields : ∀ key ∈ fieldKeys, ∀ p ∈ ps, key <:+ p.name → p.name = key
  flags : FlagsExact ps
  lengths : SteadyLengths ps

/-- What the values of the parameters ask for. `last` is the name of the last parameter. -/
def askedFor (inet : Inet) (conn : SockAddr) (value : Bytes → Option Bytes) (last : Option Bytes) : Option AnnounceRequest :=
  match value (ascii "info_hash"), value (ascii "peer_id"), value (ascii "port") with
  | some hash, some peerid, some port =>
    if lengthCheck (last = some (ascii "info_hash")) hash && lengthCheck (last = some (ascii "peer_id")) peerid then
      some
        { infoHash := copyParam hash
          peerId := copyParam peerid
          ip := match conn with
            | .in4 addr => inet.ntop4 addr
            | .in6 addr => inet.ntop6 addr
          port := int32 (strtoul port)
          protover := match conn with
            | .in4 _ => 4
            | .in6 _ => 6
          event := parseEvent (value (ascii "event"))
          left := match value (ascii "left") with
            | some left => int32 (strtoul left)
            | none => 0
          compact := value (ascii "compact") = some (ascii "1")
          noPeerId := value (ascii "no_peer_id") = some (ascii "1")
          numwant := parseNumwant (value (ascii "numwant")) }
    else none
  | _, _, _ => none

namespace ParametersAux

theorem key_text {key : Bytes} (h : key ∈ fieldKeys ∨ key ∈ flagKeys) : 61 ∉ key ∧ 38 ∉ key ∧ 63 ∉ key := by
  have hall : ∀ key ∈ fieldKeys ++ flagKeys, 61 ∉ key ∧ 38 ∉ key ∧ 63 ∉ key := by decide
  exact hall key (List.mem_append.2 h)

theorem strstr_target {key word : Bytes} (h : key ∈ fieldKeys ∨ key ∈ flagKeys) (hw : 38 ∉ word) (ps : List Param) :
    strstr (target ps) (key ++ 61 :: word) = found key word ps := by
  obtain ⟨h61, h38, h63⟩ := key_text h
  exact strstr_cons_render h61 h38 hw h63 (by decide) ps

/-! ## Reading by name -/

/-- A field is read by name exactly when its name leads. -/
theorem textAfter_iff {key : Bytes} (h : key ∈ fieldKeys) (ps : List Param) :
    textAfter (target ps) (key ++ ascii "=") = named key ps ↔ NamedFirst key ps := by
  have heq : ascii "=" = [61] := rfl
  rw [← found_eq_named_iff, textAfter, heq, strstr_target (Or.inl h) (by simp)]
  constructor
  · intro ht
    rw [← ht, found_map_drop]
  · intro hf
    simp only [hf, Option.map_map, Function.comp_def, drop_key, Option.map_id']

theorem flag_iff {key : Bytes} (h : key ∈ flagKeys) (ps : List Param) :
    (strstr (target ps) (key ++ ascii "=1")).isSome ↔ ∃ p ∈ ps, key <:+ p.name ∧ ascii "1" <+: p.value := by
  have heq : ascii "=1" = 61 :: ascii "1" := rfl
  rw [heq, strstr_target (Or.inr h) (by decide), found_isSome_iff]

/-- A query in this order is read by name exactly when the keys lead. -/
theorem readsByName_iff {ps : List Param} (hnd : (ps.map Param.name).Nodup) : ReadsByName ps ↔ KeysLead ps := by
  constructor
  · intro h
    exact
      { fields := fun key hk => (textAfter_iff hk ps).1 (h.fields key hk)
        flags := fun hm key hk hf => (h.flags hm key hk).1 ((flag_iff hk ps).2 hf) }
  · intro h
    exact
      { fields := fun key hk => (textAfter_iff hk ps).2 (h.fields key hk)
        flags := fun hm key hk => by
          rw [flag_iff hk]
          refine ⟨h.flags hm key hk, fun hv => ?_⟩
          obtain ⟨p, hp, rfl, hpv⟩ := (valueOf_eq_some_iff hnd).1 hv
          exact ⟨p, hp, List.suffix_refl _, by rw [hpv]⟩ }

/-- Whatever the order, it is read by name exactly when no other name ends in the key of a field. -/
theorem forall_perm_readsByName_iff {ps : List Param} (hnd : (ps.map Param.name).Nodup) :
    (∀ qs, qs.Perm ps → ReadsByName qs) ↔
      (∀ key ∈ fieldKeys, ∀ p ∈ ps, key <:+ p.name → p.name = key) ∧ FlagsExact ps := by
  constructor
  · intro h
    refine ⟨fun key hk => forall_perm_namedFirst_iff.1 fun qs hq => ?_, ((readsByName_iff hnd).1 (h ps (List.Perm.refl ps))).flags⟩
    exact ((readsByName_iff ((hq.map Param.name).nodup_iff.2 hnd)).1 (h qs hq)).fields key hk
  · rintro ⟨hf, hx⟩ qs hq
    have hnd' := (hq.map Param.name).nodup_iff.2 hnd
    refine (readsByName_iff hnd').2 ⟨fun key hk => forall_perm_namedFirst_iff.2 (hf key hk) qs hq, ?_⟩
    intro hm key hk hp
    rw [valueOf_perm hq hnd' key]
    refine hx (fun k hk' => valueOf_perm hq hnd' k ▸ hm k hk') key hk ?_
    obtain ⟨p, hp, hpk⟩ := hp
    exact ⟨p, hq.mem_iff.1 hp, hpk⟩

/-! ## The request built -/

variable {inet : Inet} {conn : SockAddr}

/-- What a field of a query read by name points to. -/
theorem field_cases {ps : List Param} (hnd : (ps.map Param.name).Nodup) (hr : ReadsByName ps) {key : Bytes}
    (hk : key ∈ fieldKeys) :
    (valueOf key ps = none ∧ textAfter (target ps) (key ++ ascii "=") = none) ∨
    ∃ v tail, valueOf key ps = some v ∧ textAfter (target ps) (key ++ ascii "=") = some (v ++ tail) ∧
      Behind (ps.getLast?.map Param.name = some key) tail ∧ ∀ b ∈ v, isParamByte b = true := by
  rw [hr.fields key hk]
  cases hv : valueOf key ps with
  | none => exact Or.inl ⟨rfl, named_eq_none_iff.2 hv⟩
  | some v =>
    obtain ⟨tail, ht, hb⟩ := named_eq_of_valueOf hnd hv
    obtain ⟨p, -, -, rfl⟩ := (valueOf_eq_some_iff hnd).1 hv
    exact Or.inr ⟨_, tail, rfl, ht, hb, isParamByte_value p⟩

theorem numwant_eq {ps : List Param} (hnd : (ps.map Param.name).Nodup) (hr : ReadsByName ps) :
    parseNumwant (textAfter (target ps) (ascii "numwant" ++ ascii "=")) = parseNumwant (valueOf (ascii "numwant") ps) := by
  rcases field_cases hnd hr (by decide : ascii "numwant" ∈ fieldKeys) with ⟨hv, ht⟩ | ⟨v, tail, hv, ht, hb, -⟩
  · rw [hv, ht]
  · rw [hv, ht]
    simp only [parseNumwant, strtoul_behind v hb]

theorem left_eq {ps : List Param} (hnd : (ps.map Param.name).Nodup) (hr : ReadsByName ps) :
    (match textAfter (target ps) (ascii "left" ++ ascii "=") with
      | some left => int32 (strtoul left)
      | none => 0) =
    match valueOf (ascii "left") ps with
      | some left => int32 (strtoul left)
      | none => 0 := by
  rcases field_cases hnd hr (by decide : ascii "left" ∈ fieldKeys) with ⟨hv, ht⟩ | ⟨v, tail, hv, ht, hb, -⟩
  · rw [hv, ht]
  · rw [hv, ht]
    simp only [strtoul_behind v hb]

theorem flag_eq {ps : List Param} (hr : ReadsByName ps) (hm : HasMandatory ps) {key : Bytes} (hk : key ∈ flagKeys) :
    (strstr (target ps) (key ++ ascii "=1")).isSome = decide (valueOf key ps = some (ascii "1")) := by
  rw [Bool.eq_iff_iff, hr.flags hm key hk, decide_eq_true_iff]

theorem hasMandatory_of_some {ps : List Param} {hash peerid port : Bytes} (h1 : valueOf (ascii "info_hash") ps = some hash)
    (h2 : valueOf (ascii "peer_id") ps = some peerid) (h3 : valueOf (ascii "port") ps = some port) : HasMandatory ps := by
  intro key hk
  simp only [List.mem_cons, List.not_mem_nil, or_false] at hk
  rcases hk with rfl | rfl | rfl
  · simp [h1]
  · simp [h2]
  · simp [h3]

theorem event_eq {ps : List Param} (hnd : (ps.map Param.name).Nodup) (hr : ReadsByName ps) :
    parseEvent (textAfter (target ps) (ascii "event" ++ ascii "=")) = parseEvent (valueOf (ascii "event") ps) := by
  rcases field_cases hnd hr (by decide : ascii "event" ∈ fieldKeys) with ⟨hv, ht⟩ | ⟨v, tail, hv, ht, hb, -⟩
  · rw [hv, ht]
  · rw [hv, ht, parseEvent_behind v hb]

/-- A query read by name builds what its values ask for. -/
theorem builtFrom_eq {ps : List Param} (hnd : (ps.map Param.name).Nodup) (hr : ReadsByName ps) :
    builtFrom inet conn ps = askedFor inet conn (fun key => valueOf key ps) (ps.getLast?.map Param.name) := by
  have hkeys : ascii "info_hash=" = ascii "info_hash" ++ ascii "=" ∧ ascii "peer_id=" = ascii "peer_id" ++ ascii "=" ∧
      ascii "port=" = ascii "port" ++ ascii "=" ∧ ascii "event=" = ascii "event" ++ ascii "=" ∧
      ascii "numwant=" = ascii "numwant" ++ ascii "=" ∧ ascii "left=" = ascii "left" ++ ascii "=" ∧
      ascii "compact=1" = ascii "compact" ++ ascii "=1" ∧ ascii "no_peer_id=1" = ascii "no_peer_id" ++ ascii "=1" := by decide
  obtain ⟨h1, h2, h3, h4, h5, h6, h7, h8⟩ := hkeys
  simp only [builtFrom, parseAnnounce, askedFor, h1, h2, h3, h4, h5, h6, h7, h8, event_eq hnd hr, numwant_eq hnd hr]
  rcases field_cases hnd hr (by decide : ascii "info_hash" ∈ fieldKeys) with ⟨hv, ht⟩ | ⟨hash, tail, hv, ht, hb, hp⟩
  · rw [hv, ht]
    rfl
  · rcases field_cases hnd hr (by decide : ascii "peer_id" ∈ fieldKeys) with ⟨hv', ht'⟩ | ⟨peerid, tail', hv', ht', hb', hp'⟩
    · rw [hv, ht, hv', ht']
      rfl
    · rcases field_cases hnd hr (by decide : ascii "port" ∈ fieldKeys) with ⟨hv'', ht''⟩ | ⟨port, tail'', hv'', ht'', hb'', -⟩
      · rw [hv, ht, hv', ht', hv'', ht'']
        rfl
      · have hm := hasMandatory_of_some hv hv' hv''
        have hcompact := flag_eq hr hm (by decide : ascii "compact" ∈ flagKeys)
        have hnopeer := flag_eq hr hm (by decide : ascii "no_peer_id" ∈ flagKeys)
        simp only [hv, ht, hv', ht', hv'', ht'', hasHashLength_behind hp hb, hasHashLength_behind hp' hb',
          copyParam_behind hp hb, copyParam_behind hp' hb', strtoul_behind _ hb'']
        split
        · rw [Request.built, hcompact, hnopeer, Option.some.injEq, AnnounceRequest.mk.injEq]
          exact ⟨rfl, rfl, rfl, rfl, rfl, rfl, left_eq hnd hr, rfl, rfl, rfl⟩
        · rfl

/-! ## Every order -/

/-- The bounds on the two values when `info_hash`, `peer_id` or neither is the last parameter. -/
theorem askedFor_isSome {value : Bytes → Option Bytes} {hash peerid port : Bytes} (h1 : value (ascii "info_hash") = some hash)
    (h2 : value (ascii "peer_id") = some peerid) (h3 : value (ascii "port") = some port) (last : Option Bytes) :
    (askedFor inet conn value last).isSome =
      (lengthCheck (last = some (ascii "info_hash")) hash && lengthCheck (last = some (ascii "peer_id")) peerid) := by
  simp only [askedFor, h1, h2, h3]
  split
  · rename_i h
    rw [h]
    rfl
  · rename_i h
    rw [Bool.not_eq_true] at h
    rw [h]
    rfl

/-- What is asked for does not depend on the last parameter when the lengths are steady. -/
theorem askedFor_last {ps : List Param} (h : SteadyLengths ps) (last last' : Option Bytes) :
    askedFor inet conn (fun key => valueOf key ps) last = askedFor inet conn (fun key => valueOf key ps) last' := by
  have hne : ascii "info_hash" ≠ ascii "peer_id" := by decide
  cases h1 : valueOf (ascii "info_hash") ps with
  | none => simp only [askedFor, h1]
  | some hash =>
    cases h2 : valueOf (ascii "peer_id") ps with
    | none => simp only [askedFor, h1, h2]
    | some peerid =>
      cases h3 : valueOf (ascii "port") ps with
      | none => simp only [askedFor, h1, h2, h3]
      | some port =>
        obtain ⟨ha, hb⟩ := h hash peerid h1 h2 (by simp [h3])
        have hall : ∀ last : Option Bytes,
            (lengthCheck (last = some (ascii "info_hash")) hash && lengthCheck (last = some (ascii "peer_id")) peerid) =
              (lengthCheck false hash && lengthCheck false peerid) := by
          intro last
          by_cases hl : last = some (ascii "info_hash")
          · simp [hl, hne, ha]
          · by_cases hl' : last = some (ascii "peer_id")
            · simp [hl', Ne.symm hne, hb]
            · simp [hl, hl']
        simp only [askedFor, h1, h2, h3, hall]

/-- Any parameter can be the last one. -/
theorem exists_perm_last {ps : List Param} {key v : Bytes} (hnd : (ps.map Param.name).Nodup) (h : valueOf key ps = some v) :
    ∃ qs : List Param, qs.Perm ps ∧ qs.getLast?.map Param.name = some key := by
  obtain ⟨p, hp, rfl, -⟩ := (valueOf_eq_some_iff hnd).1 h
  refine ⟨ps.erase p ++ [p], ?_, by simp⟩
  exact (List.perm_append_singleton p (ps.erase p)).trans (List.perm_cons_erase hp).symm

/-- When every order is read by name, the same request is built for every order exactly when the lengths are steady. -/
theorem forall_perm_builtFrom_iff {ps : List Param} (hnd : (ps.map Param.name).Nodup)
    (hr : ∀ qs, qs.Perm ps → ReadsByName qs) :
    (∀ qs, qs.Perm ps → builtFrom inet conn qs = builtFrom inet conn ps) ↔ SteadyLengths ps := by
  have hbuilt : ∀ qs, qs.Perm ps →
      builtFrom inet conn qs = askedFor inet conn (fun key => valueOf key ps) (qs.getLast?.map Param.name) := by
    intro qs hq
    have hnd' := (hq.map Param.name).nodup_iff.2 hnd
    have hvalues : (fun key => valueOf key qs) = fun key => valueOf key ps := funext (valueOf_perm hq hnd')
    rw [builtFrom_eq hnd' (hr qs hq), hvalues]
  constructor
  · intro h hash peerid h1 h2 h3
    obtain ⟨port, h3⟩ := Option.ne_none_iff_exists'.1 h3
    -- the same query with each of the three parameters in the last place
    have hsame : ∀ key v, valueOf key ps = some v →
        (lengthCheck (some key = some (ascii "info_hash")) hash && lengthCheck (some key = some (ascii "peer_id")) peerid) =
          (builtFrom inet conn ps).isSome := by
      intro key v hv
      obtain ⟨qs, hq, hlast⟩ := exists_perm_last hnd hv
      rw [← h qs hq, hbuilt qs hq, hlast, askedFor_isSome h1 h2 h3]
    have ha := hsame _ _ h1
    have hb := hsame _ _ h2
    have hc := hsame _ _ h3
    have hne : ascii "info_hash" ≠ ascii "peer_id" ∧ ascii "port" ≠ ascii "info_hash" ∧ ascii "port" ≠ ascii "peer_id" := by decide
    simp only [decide_true, Option.some.injEq, hne.1, Ne.symm hne.1, hne.2.1, hne.2.2, decide_false] at ha hb hc
    exact ⟨ha.trans hc.symm, hb.trans hc.symm⟩
  · intro h qs hq
    rw [hbuilt qs hq, hbuilt ps (List.Perm.refl ps)]
    exact askedFor_last h _ _

theorem noNul_target (ps : List Param) : NoNul (target ps) ∧ 32 ∉ target ps := by
  obtain ⟨h0, h32⟩ := noNul_render ps
  exact ⟨by simpa [NoNul, target] using h0, by simpa [target] using h32⟩

end ParametersAux

open ParametersAux

/-- For every query with distinct names: an announce with it is served as what its target parses to; it is read by name exactly when
the keys lead in it, and then builds what its values ask for; and it is read by name with the same result in every order exactly when
no name but the key itself ends in the key of a field, a flag found (where it is looked for) is one given as 1, and the length check does
not depend on what stands last. -/
theorem parsesByName_iff (inet : Inet) (conn : SockAddr) (ps : List Param) (hnd : (ps.map Param.name).Nodup) :
    (∀ rest stack recvIter announceInterval e db, (announceText (target ps) rest).length < recvSize → e.conn = some conn →
      parseSocket inet stack recvIter (some (announceText (target ps) rest)) announceInterval e db =
        serve inet recvIter announceInterval e db (parseAnnounce inet (target ps) conn)) ∧
    (ReadsByName ps ↔ KeysLead ps) ∧
    (ReadsByName ps →
      builtFrom inet conn ps = askedFor inet conn (fun key => valueOf key ps) (ps.getLast?.map Param.name)) ∧
    (ParsesByName inet conn ps ↔ KeysApart ps) := by
  refine ⟨fun rest stack recvIter announceInterval e db hsize hconn => ?_, readsByName_iff hnd, builtFrom_eq hnd, ?_⟩
  · exact parseSocket_announce (noNul_target ps).1 (noNul_target ps).2 hsize stack recvIter announceInterval hconn db
  · constructor
    · intro h
      have hr : ∀ qs, qs.Perm ps → ReadsByName qs := fun qs hq => (h qs hq).1
      obtain ⟨hf, hx⟩ := (forall_perm_readsByName_iff hnd).1 hr
      exact
        { fields := hf
          flags := hx
          lengths := (forall_perm_builtFrom_iff hnd hr).1 fun qs hq => (h qs hq).2 }
    · intro h qs hq
      have hr := (forall_perm_readsByName_iff hnd).2 ⟨h.fields, h.flags⟩
      exact ⟨hr qs hq, (forall_perm_builtFrom_iff hnd hr).2 h.lengths qs hq⟩

namespace ParametersExample

def infoHash : Param := ⟨ascii "info_hash", ascii "aaaaaaaaaaaaaaaaaaaa", infoHash_text, by decide +kernel⟩

def peerId : Param := ⟨ascii "peer_id", ascii "bbbbbbbbbbbbbbbbbbbb", peerId_text, by decide +kernel⟩

def port : Param := ⟨ascii "port", ascii "6881", port_text, by decide +kernel⟩

def compact : Param := ⟨ascii "compact", ascii "1", by decide +kernel, by decide +kernel⟩

def noPeerId : Param := ⟨ascii "no_peer_id", ascii "1", by decide +kernel, by decide +kernel⟩

def conn : SockAddr := .in4 (ipv4 10 0 0 1)

theorem keysApart_compact : KeysApart [infoHash, peerId, port, compact] :=
  { fields := by decide
    flags := by
      intro _
      decide
    lengths := by
      intro hash peerid h1 h2 _
      have e1 : valueOf (ascii "info_hash") [infoHash, peerId, port, compact] = some infoHash.value := by decide
      have e2 : valueOf (ascii "peer_id") [infoHash, peerId, port, compact] = some peerId.value := by decide
      obtain rfl := Option.some.inj (e1.symm.trans h1)
      obtain rfl := Option.some.inj (e2.symm.trans h2)
      decide }

end ParametersExample

open ParametersExample

/-- A query whose names do not end in each other. -/
theorem parsesByName_iff_compact : ParsesByName PlainInet.inet conn [infoHash, peerId, port, compact] :=
  (parsesByName_iff PlainInet.inet conn [infoHash, peerId, port, compact] (by decide)).2.2.2.2 keysApart_compact

/-- With `no_peer_id=1` in front of it `peer_id` is read from there, and no request is built; behind it, one is. -/
theorem not_parsesByName_no_peer_id :
    ([infoHash, noPeerId, peerId, port].map Param.name).Nodup ∧
    textAfter (target [infoHash, noPeerId, peerId, port]) (ascii "peer_id=") =
      some (ascii "1&peer_id=bbbbbbbbbbbbbbbbbbbb&port=6881") ∧
    builtFrom PlainInet.inet conn [infoHash, noPeerId, peerId, port] = none ∧
    (builtFrom PlainInet.inet conn [infoHash, peerId, noPeerId, port]).isSome ∧
    ¬ParsesByName PlainInet.inet conn [infoHash, noPeerId, peerId, port] := by
  refine ⟨by decide, by decide, by decide, by decide, fun h => ?_⟩
  have hr := (h _ (List.Perm.refl _)).1.fields (ascii "peer_id") (by decide)
  revert hr
  decide

end Traccoon
