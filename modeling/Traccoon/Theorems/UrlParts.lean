import Traccoon.Net

/-!
# Taking a tracker URL apart

The `@` and the `:` that end credentials and host are looked for in all that is left of the URL. So a URL without credentials is taken
apart as it was written exactly when its path has no `@`, and one without a port exactly when its path has no `:` (`parses_iff`).
-/

namespace Traccoon

open CString

/-- The parts of a URL, as they may be written. -/
structure Url where
  protocol : Bytes
  credentials : Option Bytes
  host : Bytes
  port : Option Getpeers.DigitString
  path : Bytes
  protocol_text : NoNul protocol ∧ 58 ∉ protocol
  credentials_text : ∀ c ∈ credentials, NoNul c ∧ 47 ∉ c ∧ 64 ∉ c
  host_text : NoNul host ∧ host ≠ [] ∧ 47 ∉ host ∧ 58 ∉ host ∧ 64 ∉ host
  path_text : NoNul path

namespace Url

/-- The credentials with the `@` behind them. -/
def credentialsText (u : Url) : Bytes := match u.credentials with
  | some c => c ++ [64]
  | none => []

/-- The port with the `:` in front of it. -/
def portText (u : Url) : Bytes := match u.port with
  | some n => 58 :: n.val
  | none => []

/-- The URL as a string. -/
def text (u : Url) : Bytes := u.protocol ++ ascii "://" ++ u.credentialsText ++ u.host ++ u.portText ++ 47 :: u.path

end Url

open Net

/-- The buffer is taken apart into these parts. -/
def Parses (buf : Bytes) (u : Url) : Prop :=
  ∃ left rv, parseUrlDestructive buf = some (left, rv) ∧ rv.status = 0 ∧ stringOf left rv.protocol = some u.protocol ∧
    stringOf left rv.credentials = u.credentials ∧ stringOf left rv.host = some u.host ∧
    stringOf left rv.port = u.port.map Subtype.val ∧ stringOf left rv.path = some u.path

namespace UrlPartsAux

/-! ### Searching and writing at an index -/

theorem strchrAt_some {pre a : Bytes} {c : UInt8} (hn : NoNul a) (ha : c ∉ a) (hc : c ≠ 0) (b : Bytes) :
    strchrAt (pre ++ (a ++ c :: b)) pre.length c = some (pre.length + a.length) := by
  have hcons : cstr (c :: b) = c :: cstr b := by simp [cstr, hc]
  rw [strchrAt, List.drop_left, cstr_append hn, hcons, charIndex_append ha, Option.map_some]

theorem strchrAt_none {pre a : Bytes} {c : UInt8} (hn : NoNul a) (ha : c ∉ a) (b : Bytes) :
    strchrAt (pre ++ (a ++ 0 :: b)) pre.length c = none := by
  rw [strchrAt, List.drop_left, cstr_append_nul hn, charIndex_eq_none ha, Option.map_none]

/-- A byte of the string is found. -/
theorem exists_strchrAt {pre a : Bytes} {c : UInt8} (hn : NoNul a) (ha : c ∈ a) (hc : c ≠ 0) (b : Bytes) :
    ∃ i, strchrAt (pre ++ (a ++ 0 :: b)) pre.length c = some i := by
  obtain ⟨x, y, rfl, hx⟩ := List.eq_append_cons_of_mem ha
  have hbuf : x ++ c :: y ++ 0 :: b = x ++ c :: (y ++ 0 :: b) := by simp
  rw [hbuf]
  exact ⟨_, strchrAt_some (noNul_append.1 hn).1 hx hc _⟩

/-- The terminator that is written over the byte between two parts. -/
theorem set_between (pre a b : Bytes) (c : UInt8) :
    (pre ++ (a ++ c :: b)).set (pre.length + a.length) 0 = pre ++ (a ++ 0 :: b) := by
  simp

theorem stringOf_some {pre a : Bytes} (hn : NoNul a) (b : Bytes) : stringOf (pre ++ (a ++ 0 :: b)) (some pre.length) = some a := by
  rw [stringOf, Option.map_some, List.drop_left, cstr_append_nul hn]

theorem noNul_digits {n : Getpeers.DigitString} : NoNul n.val ∧ 47 ∉ n.val ∧ 64 ∉ n.val := by
  refine ⟨noNul_of_digits n.property, ?_, ?_⟩
  · intro h
    exact absurd (n.property 47 h) (by decide)
  · intro h
    exact absurd (n.property 64 h) (by decide)

/-! ### From the host on -/

variable {u : Url} {pre rest : Bytes} {rv : UrlComponents}

theorem noNul_portText (u : Url) : NoNul u.portText ∧ 47 ∉ u.portText := by
  unfold Url.portText
  split
  · rename_i n _
    obtain ⟨h1, h2, -⟩ := @noNul_digits n
    simp only [NoNul, List.mem_cons, not_or] at h1 ⊢
    exact ⟨⟨by decide, h1⟩, by decide, h2⟩
  · exact ⟨by simp [NoNul], by simp⟩

theorem noNul_behind (u : Url) : NoNul (u.host ++ u.portText ++ 47 :: u.path) := by
  refine noNul_append.2 ⟨noNul_append.2 ⟨u.host_text.1, (noNul_portText u).1⟩, ?_⟩
  simpa [NoNul] using u.path_text

/-- The text from the host on has a slash, which ends the host and the port. -/
theorem slash_found (u : Url) (pre rest : Bytes) :
    strchrAt (pre ++ (u.host ++ u.portText ++ 47 :: (u.path ++ 0 :: rest))) pre.length 47 =
      some (pre.length + (u.host ++ u.portText).length) := by
  obtain ⟨hn, -, hslash, -, -⟩ := u.host_text
  have hport := noNul_portText u
  refine strchrAt_some (noNul_append.2 ⟨hn, hport.1⟩) ?_ (by decide) _
  rw [List.mem_append, not_or]
  exact ⟨hslash, hport.2⟩

/-- With a port, the `:` in front of it is found, whatever the path holds. -/
theorem parseHost_port {n : Getpeers.DigitString} (hp : u.port = some n) :
    parseHost (pre ++ (u.host ++ u.portText ++ 47 :: (u.path ++ 0 :: rest))) pre.length rv =
      some (pre ++ (u.host ++ 0 :: (n.val ++ 0 :: (u.path ++ 0 :: rest))),
        { rv with host := some pre.length, port := some (pre ++ (u.host ++ [0])).length,
                  path := some (pre ++ (u.host ++ 0 :: (n.val ++ [0]))).length }) := by
  obtain ⟨hn, -, -, hcolon, -⟩ := u.host_text
  have hslash := slash_found u pre rest
  have hport : u.portText = 58 :: n.val := by rw [Url.portText, hp]
  have hfirst : strchrAt (pre ++ (u.host ++ 58 :: (n.val ++ 47 :: (u.path ++ 0 :: rest)))) pre.length 58 =
      some (pre.length + u.host.length) := strchrAt_some hn hcolon (by decide) _
  have hend : strchrAt (pre ++ (u.host ++ 0 :: (n.val ++ 47 :: (u.path ++ 0 :: rest)))) (pre.length + u.host.length + 1) 47 =
      some (pre.length + u.host.length + 1 + n.val.length) := by
    have := @strchrAt_some (pre ++ (u.host ++ [0])) n.val 47 noNul_digits.1 noNul_digits.2.1 (by decide) (u.path ++ 0 :: rest)
    simpa [Nat.add_assoc] using this
  have hbuf : u.host ++ u.portText ++ 47 :: (u.path ++ 0 :: rest) = u.host ++ 58 :: (n.val ++ 47 :: (u.path ++ 0 :: rest)) := by
    rw [hport]
    simp
  rw [hbuf] at hslash ⊢
  simp only [parseHost, hslash, hfirst, set_between, hend]
  simp [Nat.add_assoc, Nat.add_comm 1]

/-- Without a port and without a `:` in the path, none is found. -/
theorem parseHost_noPort (hp : u.port = none) (hq : 58 ∉ u.path) :
    parseHost (pre ++ (u.host ++ u.portText ++ 47 :: (u.path ++ 0 :: rest))) pre.length rv =
      some (pre ++ (u.host ++ 0 :: (u.path ++ 0 :: rest)),
        { rv with host := some pre.length, path := some (pre ++ (u.host ++ [0])).length }) := by
  obtain ⟨hn, -, -, hcolon, -⟩ := u.host_text
  have hslash := slash_found u pre rest
  have hport : u.portText = [] := by rw [Url.portText, hp]
  rw [hport, List.append_nil] at hslash ⊢
  have hno : strchrAt (pre ++ (u.host ++ 47 :: (u.path ++ 0 :: rest))) pre.length 58 = none := by
    have := @strchrAt_none pre (u.host ++ 47 :: u.path) 58 ?_ ?_ rest
    · simpa using this
    · exact noNul_append.2 ⟨hn, by simpa [NoNul] using u.path_text⟩
    · simpa [hcolon] using hq
  simp only [parseHost, hslash, hno, set_between]
  simp [Nat.add_assoc]

/-- Without a port, a `:` in the path is taken for the one in front of it. -/
theorem parseHost_colon (hp : u.port = none) (hq : 58 ∈ u.path) {left : Bytes} {rv' : UrlComponents}
    (h : parseHost (pre ++ (u.host ++ u.portText ++ 47 :: (u.path ++ 0 :: rest))) pre.length rv = some (left, rv')) :
    rv'.port ≠ none := by
  have hslash := slash_found u pre rest
  have hport : u.portText = [] := by rw [Url.portText, hp]
  rw [hport, List.append_nil] at hslash h
  have hmem : 58 ∈ u.host ++ u.portText ++ 47 :: u.path := List.mem_append_right _ (List.mem_cons_of_mem 47 hq)
  obtain ⟨i, hfound⟩ := @exists_strchrAt pre _ _ (noNul_behind u) hmem (by decide) rest
  rw [hport, List.append_nil, List.append_assoc, List.cons_append] at hfound
  simp only [parseHost, hslash, hfound] at h
  split at h
  · cases h
  · obtain ⟨-, rfl⟩ := Prod.mk.inj (Option.some.inj h)
    simp

/-- What the parts are read from the host on, when its delimiters are found where they were written. -/
theorem parseHost_parts (hok : u.port.isSome ∨ 58 ∉ u.path) : ∃ left rv',
    parseHost (pre ++ (u.host ++ u.portText ++ 47 :: (u.path ++ 0 :: rest))) pre.length rv = some (pre ++ left, rv') ∧
    rv'.status = rv.status ∧ rv'.protocol = rv.protocol ∧ rv'.credentials = rv.credentials ∧
    stringOf (pre ++ left) rv'.host = some u.host ∧ (rv.port = none → stringOf (pre ++ left) rv'.port = u.port.map Subtype.val) ∧
    stringOf (pre ++ left) rv'.path = some u.path := by
  obtain ⟨hn, -, -, -, -⟩ := u.host_text
  cases hp : u.port with
  | some n =>
    refine ⟨_, _, parseHost_port hp, rfl, rfl, rfl, stringOf_some hn _, fun _ => ?_, ?_⟩
    · have := @stringOf_some (pre ++ (u.host ++ [0])) n.val noNul_digits.1 (u.path ++ 0 :: rest)
      simpa using this
    · have := @stringOf_some (pre ++ (u.host ++ 0 :: (n.val ++ [0]))) u.path u.path_text rest
      simpa using this
  | none =>
    have hq : 58 ∉ u.path := by simpa [hp] using hok
    refine ⟨_, _, parseHost_noPort hp hq, rfl, rfl, rfl, stringOf_some hn _, fun h => ?_, ?_⟩
    · simp [stringOf, h]
    · have := @stringOf_some (pre ++ (u.host ++ [0])) u.path u.path_text rest
      simpa using this

/-- What is known of the credentials when the host is looked at is not changed. -/
theorem parseHost_credentials {buf left : Bytes} {url : Nat} {rv' : UrlComponents} (h : parseHost buf url rv = some (left, rv')) :
    rv'.credentials = rv.credentials := by
  cases hslash : strchrAt buf url 47 with
  | none =>
    simp only [parseHost, hslash, Option.some.injEq, Prod.mk.injEq] at h
    rw [← h.2]
  | some slash =>
    cases hcolon : strchrAt buf url 58 with
    | none =>
      simp only [parseHost, hslash, hcolon, Option.some.injEq, Prod.mk.injEq] at h
      rw [← h.2]
    | some colon =>
      simp only [parseHost, hslash, hcolon] at h
      split at h
      · cases h
      · obtain ⟨-, rfl⟩ := Prod.mk.inj (Option.some.inj h)
        rfl

/-! ### The protocol and the credentials -/

/-- The separator is found behind a text without a `:`. -/
theorem strstr_separator {a : Bytes} (ha : 58 ∉ a) (t : Bytes) :
    strstr (a ++ (ascii "://" ++ t)) (ascii "://") = some (ascii "://" ++ t) := by
  induction a with
  | nil => exact strstr_here (List.prefix_append _ _)
  | cons x a ih =>
    simp only [List.mem_cons, not_or] at ha
    rw [List.cons_append, strstr_cons_skip, ih ha.2]
    intro h
    exact ha.1 (List.cons_prefix_cons.1 h).1

/-- The URL once the protocol has been cut off. -/
def start (u : Url) : Bytes := u.protocol ++ 0 :: ascii "//"

/-- What stands behind the separator. -/
def behind (u : Url) (rest : Bytes) : Bytes := u.credentialsText ++ (u.host ++ u.portText ++ 47 :: (u.path ++ 0 :: rest))

/-- The part of the function from the credentials on. -/
theorem parseUrlDestructive_start (u : Url) (rest : Bytes) :
    parseUrlDestructive (u.text ++ 0 :: rest) =
      match strchrAt (start u ++ behind u rest) (start u).length 64 with
      | some mark => parseHost ((start u ++ behind u rest).set mark 0) (mark + 1)
          { status := 0, protocol := some 0, credentials := some (start u).length, host := none, port := none, path := none }
      | none => parseHost (start u ++ behind u rest) (start u).length
          { status := 0, protocol := some 0, credentials := none, host := none, port := none, path := none } := by
  obtain ⟨hn, hcolon⟩ := u.protocol_text
  have hbuf : u.text ++ 0 :: rest = u.protocol ++ (ascii "://" ++ behind u rest) := by simp [Url.text, behind]
  have hset : (u.protocol ++ (ascii "://" ++ behind u rest)).set u.protocol.length 0 = start u ++ behind u rest := by
    simp [start, ascii]
  have hlen : u.protocol.length + 3 = (start u).length := by simp [start, ascii]
  have hsep : strstrAt (u.protocol ++ (ascii "://" ++ behind u rest)) 0 (ascii "://") = some u.protocol.length := by
    have hcstr : cstr (ascii "://" ++ behind u rest) = ascii "://" ++ cstr (behind u rest) := cstr_append (by decide) _
    rw [strstrAt, List.drop_zero, cstr_append hn, hcstr, strstr_separator hcolon]
    simp
  rw [hbuf]
  cases hmark : strchrAt (start u ++ behind u rest) (start u).length 64 with
  | none => simp only [parseUrlDestructive, hsep, hset, hlen, hmark]
  | some mark => simp only [parseUrlDestructive, hsep, hset, hlen, hmark]

/-- The protocol is what stands in front of the first terminator. -/
theorem stringOf_protocol (u : Url) (t : Bytes) : stringOf (start u ++ t) (some 0) = some u.protocol := by
  have := @stringOf_some [] u.protocol u.protocol_text.1 (ascii "//" ++ t)
  simpa [start] using this

/-- The host is looked for where it was written, and the protocol and the credentials in front of it are as they were written. -/
structure HostAt (u : Url) (rest pre : Bytes) (rv : UrlComponents) : Prop where
  parse : parseUrlDestructive (u.text ++ 0 :: rest) =
    parseHost (pre ++ (u.host ++ u.portText ++ 47 :: (u.path ++ 0 :: rest))) pre.length rv
  status : rv.status = 0
  port : rv.port = none
  protocol : ∀ t, stringOf (pre ++ t) rv.protocol = some u.protocol
  credentials : ∀ t, stringOf (pre ++ t) rv.credentials = u.credentials

/-- Credentials end at their `@`, whatever stands behind. -/
theorem exists_hostAt_credentials {c : Bytes} (hc : u.credentials = some c) : ∃ pre rv, HostAt u rest pre rv := by
  obtain ⟨hn, -, hmark⟩ := u.credentials_text c (by rw [hc]; rfl)
  have hbehind : behind u rest = c ++ 64 :: (u.host ++ u.portText ++ 47 :: (u.path ++ 0 :: rest)) := by
    simp [behind, Url.credentialsText, hc]
  have hset := set_between (start u) c (u.host ++ u.portText ++ 47 :: (u.path ++ 0 :: rest)) 64
  have happ : ∀ t, start u ++ (c ++ [0]) ++ t = start u ++ (c ++ 0 :: t) := by simp
  refine ⟨start u ++ (c ++ [0]),
    { status := 0, protocol := some 0, credentials := some (start u).length, host := none, port := none, path := none },
    ?_, rfl, rfl, ?_, ?_⟩
  · have hpre : (start u).length + c.length + 1 = (start u ++ (c ++ [0])).length := by simp [Nat.add_assoc]
    rw [parseUrlDestructive_start, hbehind, strchrAt_some hn hmark (by decide)]
    simp only [hset, happ, hpre]
  · intro t
    rw [happ]
    exact stringOf_protocol u _
  · intro t
    rw [happ, hc]
    exact stringOf_some hn t

/-- Without credentials and without an `@` in the path, none is found. -/
theorem exists_hostAt_none (hc : u.credentials = none) (hq : 64 ∉ u.path) : ∃ pre rv, HostAt u rest pre rv := by
  obtain ⟨-, -, -, -, hmark⟩ := u.host_text
  have hbehind : behind u rest = u.host ++ u.portText ++ 47 :: u.path ++ 0 :: rest := by
    simp [behind, Url.credentialsText, hc]
  have hport : 64 ∉ u.portText := by
    unfold Url.portText
    split
    · rename_i n _
      exact List.not_mem_cons_of_ne_of_not_mem (by decide) (@noNul_digits n).2.2
    · exact List.not_mem_nil
  have hno : strchrAt (start u ++ (u.host ++ u.portText ++ 47 :: u.path ++ 0 :: rest)) (start u).length 64 = none := by
    refine strchrAt_none (noNul_behind u) ?_ rest
    simpa [hmark, hport] using hq
  refine ⟨start u, { status := 0, protocol := some 0, credentials := none, host := none, port := none, path := none }, ?_, rfl, rfl, ?_, ?_⟩
  · rw [parseUrlDestructive_start, hbehind, hno]
    simp
  · intro t
    exact stringOf_protocol u t
  · intro t
    rw [hc]
    rfl

/-- Without credentials, an `@` in the path is taken for the one behind them. -/
theorem credentials_of_mem (hc : u.credentials = none) (hq : 64 ∈ u.path) {left : Bytes} {rv' : UrlComponents}
    (h : parseUrlDestructive (u.text ++ 0 :: rest) = some (left, rv')) : rv'.credentials ≠ none := by
  have hbehind : behind u rest = u.host ++ u.portText ++ 47 :: u.path ++ 0 :: rest := by
    simp [behind, Url.credentialsText, hc]
  have hmem : 64 ∈ u.host ++ u.portText ++ 47 :: u.path := List.mem_append_right _ (List.mem_cons_of_mem 47 hq)
  obtain ⟨i, hi⟩ := @exists_strchrAt (start u) _ _ (noNul_behind u) hmem (by decide) rest
  rw [parseUrlDestructive_start, hbehind, hi] at h
  rw [parseHost_credentials h]
  simp

end UrlPartsAux

open UrlPartsAux

/-- For every URL made of a protocol, credentials or none, a host, a port or none, and a path, with anything behind its terminator: it is
taken apart into these parts exactly when there are credentials or no `@` in the path, and a port or no `:` in the path. -/
theorem parses_iff (u : Url) (rest : Bytes) :
    Parses (u.text ++ 0 :: rest) u ↔ (u.credentials.isSome ∨ 64 ∉ u.path) ∧ (u.port.isSome ∨ 58 ∉ u.path) := by
  have hhost : (u.credentials.isSome ∨ 64 ∉ u.path) → ∃ pre rv, HostAt u rest pre rv := by
    intro hmark
    cases hc : u.credentials with
    | some c => exact exists_hostAt_credentials hc
    | none => exact exists_hostAt_none hc (by simpa [hc] using hmark)
  constructor
  · rintro ⟨left, rv', hparse, -, -, hcredentials, -, hport, -⟩
    have hmark : u.credentials.isSome ∨ 64 ∉ u.path := by
      by_contra hno
      obtain ⟨hc, hq⟩ := not_or.1 hno
      rw [Option.not_isSome_iff_eq_none] at hc
      rw [hc] at hcredentials
      exact credentials_of_mem hc (not_not.1 hq) hparse (Option.map_eq_none_iff.1 hcredentials)
    refine ⟨hmark, ?_⟩
    by_contra hno
    obtain ⟨hp, hq⟩ := not_or.1 hno
    rw [Option.not_isSome_iff_eq_none] at hp
    rw [hp] at hport
    obtain ⟨pre, rv, hat⟩ := hhost hmark
    rw [hat.parse] at hparse
    exact parseHost_colon hp (not_not.1 hq) hparse (Option.map_eq_none_iff.1 hport)
  · rintro ⟨hmark, hcolon⟩
    obtain ⟨pre, rv, hat⟩ := hhost hmark
    obtain ⟨left, rv', hparse, h0, h1, h2, h3, h4, h5⟩ := @parseHost_parts u pre rest rv hcolon
    refine ⟨_, rv', hat.parse.trans hparse, h0.trans hat.status, ?_, ?_, h3, h4 hat.port, h5⟩
    · rw [h1]
      exact hat.protocol left
    · rw [h2]
      exact hat.credentials left

namespace UrlPartsExample

/-- A path with an `@`. -/
def user : Url :=
  { protocol := ascii "http", credentials := none, host := ascii "h", port := none, path := ascii "~a@b/announce",
    protocol_text := by decide, credentials_text := by simp, host_text := by decide, path_text := by decide }

/-- A path with a `:`. -/
def colon : Url :=
  { protocol := ascii "http", credentials := none, host := ascii "h", port := none, path := ascii "a:b",
    protocol_text := by decide, credentials_text := by simp, host_text := by decide, path_text := by decide }

end UrlPartsExample

open UrlPartsExample

/-- `http://h/~a@b/announce` is taken for a host `b` with the credentials `h/~a`, and `http://h/a:b` has a null pointer written through. -/
theorem not_parses_delimiters : ¬Parses (user.text ++ [0]) user ∧ ¬Parses (colon.text ++ [0]) colon ∧
    (parseUrlDestructive (user.text ++ [0])).map (fun r => (stringOf r.1 r.2.credentials, stringOf r.1 r.2.host, stringOf r.1 r.2.path)) =
      some (some (ascii "h/~a"), some (ascii "b"), some (ascii "announce")) ∧
    parseUrlDestructive (colon.text ++ [0]) = none := by
  have huser : parseUrlDestructive (user.text ++ [0]) =
      some (ascii "http" ++ 0 :: ascii "//h/~a" ++ 0 :: ascii "b" ++ 0 :: ascii "announce" ++ [0],
      { status := 0, protocol := some 0, credentials := some 7, host := some 12, port := none, path := some 14 }) := by decide
  have hcolon : parseUrlDestructive (colon.text ++ [0]) = none := by decide
  refine ⟨?_, ?_, ?_, hcolon⟩
  · rintro ⟨left, rv, h, -, -, hcredentials, -⟩
    rw [huser] at h
    obtain ⟨rfl, rfl⟩ := Prod.mk.inj (Option.some.inj h)
    cases hcredentials
  · rintro ⟨left, rv, h, -⟩
    rw [hcolon] at h
    cases h
  · rw [huser]
    decide

end Traccoon
