import Traccoon.TorrentFile
import Traccoon.Lemmas.BencDict
import Traccoon.Lemmas.BencNul

/-!
# The tracker and the hash of a torrent file

In a dictionary the first top-level entry with the key is found, whatever the entries in front of it hold, and the bytes hashed are those
of its value. The length of the file is an `int`: of a file of 2^31 bytes or more the terminator goes in front of the buffer, or into it,
and it may hit the dictionary (`TerminatorHarmless`).
-/

namespace Traccoon

open CString Bencode Getpeers

/-- For any hash function, the call returns 0 with this tracker and the hash of this dictionary. -/
def ReadsTorrent (fopen : Bytes → Option Bytes) (last : UInt8) (filename : Bytes) (hash : Vector UInt8 61) (url : Bytes)
    (info : List (Bytes × Value)) : Prop :=
  ∀ sha1 : Bytes → Vector UInt8 20, ∃ fuel₀, ∀ fuel, fuel₀ ≤ fuel → ∃ r,
    readTorrentfile sha1 fopen last fuel (some filename) (some none) (some (some hash)) = .ok r ∧ r.result = 0 ∧
      r.tracker = some (some (url ++ [0])) ∧ ∃ hash', r.hash = some (some hash') ∧
        hash'.toList.take 41 = hexEncode (sha1 (Value.dict info).encode).toList ++ [0]

/-- The first top-level entries under the two keys. -/
def HasTorrent (es : List (Bytes × Value)) (url : Bytes) (info : List (Bytes × Value)) : Prop :=
  (Value.dict es).get? (ascii "announce") = some (.str url) ∧ (Value.dict es).get? (ascii "info") = some (.dict info)

/-- A terminator at the index given by the length of the file is in the buffer, and leaves a dictionary with the same tracker and the same
info. -/
def TerminatorHarmless (es : List (Bytes × Value)) (url : Bytes) (info : List (Bytes × Value)) (length : Nat) : Prop :=
  0 ≤ int32 length ∧ ∃ fs, (Value.dict es).encode.set (int32 length).toNat 0 = (Value.dict fs).encode ∧ HasTorrent fs url info

namespace TorrentFilesAux

variable {buf s : Bytes} {fuel : Nat} {es : List (Bytes × Value)}

/-- In front of the buffer there is nothing to look at. -/
theorem bencEntityType_front (buf : Bytes) : bencEntityType buf (-1) = .error .fault := rfl

theorem bencEntityLength_front (buf : Bytes) (fuel : Nat) (r : Int) : bencEntityLength buf fuel (-1) 0 ≠ .ok r := by
  cases fuel with
  | zero => exact fun h => by cases h
  | succ f =>
    rw [bencEntityLength, bencEntityType_front]
    exact fun h => by cases h

/-! ## The parts of the function -/

theorem isTorrent_dict (h : TextAt buf 0 ((Value.dict es).encode ++ s)) (hlen : (Value.dict es).encode.length < 2147483648)
    (hf : (Value.dict es).encode.length ≤ fuel) : isTorrent buf fuel = .ok true := by
  have hl := (measures _ buf fuel).1 _ s 0 0 (complete_encode (.dict es)) h hlen hf
  simp only [isTorrent, bencEntityType_encode _ h, entityType, Value.kind, walk_ok_bind, hl]
  simp [pure, Except.pure]

/-- The tracker is the string under the first `announce`, and there is none without. -/
theorem readTracker_iff (h : TextAt buf 0 ((Value.dict es).encode ++ s)) (hlen : (Value.dict es).encode.length < 2147483648)
    (hf : (Value.dict es).encode.length ≤ fuel) (tracker : Bytes) : readTracker buf fuel = .ok (some tracker) ↔
      ∃ url, (Value.dict es).get? (ascii "announce") = some (.str url) ∧ tracker = url ++ [0] := by
  rcases dictValueOffset_cases h hlen hf (ascii "announce") with ⟨hget, hoff⟩ | ⟨v, o, s', hget, hoff, -, ht, hv⟩
  · rw [hget, readTracker, hoff]
    constructor
    · exact fun he => by cases he
    · rintro ⟨_, he, -⟩
      cases he
  · rw [hget]
    rw [Int.zero_add] at ht
    have hsl := stringLength_encode v ht (by omega)
    cases v with
    | str url =>
      have hlen' : (decimal url.length).length + 1 + url.length < 2147483648 := by
        rw [encode_str, encodeStr, List.length_append, List.length_cons] at hv
        omega
      rw [encode_str, encodeStr, List.append_assoc, List.cons_append] at ht
      have hdata := stringDataOffset_digits ht (decimal_digits _) (decimal_ne_nil _) (by omega)
      have hurl : TextAt buf (((decimal url.length).length + 1 : Nat) + (o : Int)) (url ++ s') := by
        have := ht.move.next
        have hmove : (o : Int) + ((decimal url.length).length : Int) + 1 = ((decimal url.length).length + 1 : Nat) + (o : Int) := by omega
        rwa [hmove] at this
      have hread : readTracker buf fuel = .ok (some (url ++ [0])) := by
        simp only [readTracker, hoff, walk_ok_bind, hsl]
        rw [if_neg (by omega)]
        simp only [hdata, walk_ok_bind, Torrentinfo.bytesAt_eq hurl]
        rfl
      rw [hread]
      constructor
      · intro he
        exact ⟨url, rfl, (Option.some.inj (Except.ok.inj he)).symm⟩
      · rintro ⟨url', he, rfl⟩
        obtain rfl := Value.str.inj (Option.some.inj he)
        rfl
    | _ =>
      simp only [readTracker, hoff, walk_ok_bind, hsl]
      rw [if_pos (Or.inr (by decide))]
      constructor
      · intro he
        cases Except.ok.inj he
      · rintro ⟨_, he, -⟩
        cases Option.some.inj he

/-- The hash is that of the dictionary under the first `info`, and there is none without. -/
theorem readHash_iff (sha1 : Bytes → Vector UInt8 20) (h : TextAt buf 0 ((Value.dict es).encode ++ s))
    (hlen : (Value.dict es).encode.length < 2147483648) (hf : (Value.dict es).encode.length ≤ fuel) (hash hash' : Vector UInt8 61) :
    readHash sha1 buf fuel hash = .ok hash' ↔ ∃ info, (Value.dict es).get? (ascii "info") = some (.dict info) ∧
      memcpy hash 0 (hexEncode (sha1 (Value.dict info).encode).toList ++ [0]) = some hash' := by
  rcases dictValueOffset_cases h hlen hf (ascii "info") with ⟨hget, hoff⟩ | ⟨v, o, s', hget, hoff, -, ht, hv⟩
  · rw [hget, readHash, hoff, walk_ok_bind]
    constructor
    · intro he
      cases hl : bencEntityLength buf fuel (-1) 0 with
      | error e =>
        rw [hl] at he
        cases he
      | ok r => exact absurd hl (bencEntityLength_front buf fuel r)
    · rintro ⟨_, he, -⟩
      cases he
  · rw [hget]
    rw [Int.zero_add] at ht
    have hl := (measures _ buf fuel).1 _ s' o 0 (complete_encode v) ht (by omega) (by omega)
    have hty := bencEntityType_encode v ht
    simp only [readHash, hoff, walk_ok_bind, hl, hty]
    rw [if_neg (by omega)]
    cases v with
    | dict info =>
      simp only [entityType, Value.kind, Torrentinfo.bytesAt_eq ht, walk_ok_bind]
      cases hcopy : memcpy hash 0 (hexEncode (sha1 (Value.dict info).encode).toList ++ [0]) with
      | none =>
        constructor
        · exact fun he => by cases he
        · rintro ⟨info', he, hcopy'⟩
          obtain rfl := Value.dict.inj (Option.some.inj he)
          rw [hcopy] at hcopy'
          cases hcopy'
      | some hash'' =>
        constructor
        · intro he
          exact ⟨info, rfl, hcopy.trans (congrArg some (Except.ok.inj he))⟩
        · rintro ⟨info', he, hcopy'⟩
          obtain rfl := Value.dict.inj (Option.some.inj he)
          exact congrArg Except.ok (Option.some.inj (hcopy.symm.trans hcopy'))
    | _ =>
      constructor
      · intro he
        cases he
      · rintro ⟨_, he, -⟩
        cases Option.some.inj he

/-- The hash with its terminator, at the start of the array. -/
def IsHash (sha1 : Bytes → Vector UInt8 20) (info : List (Bytes × Value)) (hash' : Vector UInt8 61) : Prop :=
  hash'.toList.take 41 = hexEncode (sha1 (Value.dict info).encode).toList ++ [0]

theorem exists_copy (hash : Vector UInt8 61) (sha1 : Bytes → Vector UInt8 20) (info : List (Bytes × Value)) :
    ∃ hash', memcpy hash 0 (hexEncode (sha1 (Value.dict info).encode).toList ++ [0]) = some hash' ∧ IsHash sha1 info hash' := by
  have hlen : (hexEncode (sha1 (Value.dict info).encode).toList ++ [0]).length = 41 := by
    rw [List.length_append, length_hexEncode, Vector.length_toList]
    rfl
  obtain ⟨hash', hcopy, htake⟩ := @memcpy_of_le _ hash 0 _ (show 0 + _ ≤ 61 by rw [hlen]; decide)
  rw [hlen] at htake
  exact ⟨hash', hcopy, by simpa [IsHash] using htake⟩

variable {hash : Vector UInt8 61}

/-- With a tracker, the call goes on to the hash. -/
theorem readBuffer_found (sha1 : Bytes → Vector UInt8 20) (htorrent : isTorrent buf fuel = .ok true) (hempty : hash[0]? = some 0)
    {tracker : Bytes} (hread : readTracker buf fuel = .ok (some tracker)) : readBuffer sha1 buf fuel none hash =
      (readHash sha1 buf fuel hash).map fun hash =>
        { printed := [], tracker := some (some tracker), hash := some (some hash), result := 0 } := by
  rw [readBuffer, htorrent, walk_ok_bind, if_pos rfl, if_neg (by decide), hread, walk_ok_bind]
  dsimp only
  rw [if_pos hempty]
  cases readHash sha1 buf fuel hash with
  | error e => rfl
  | ok hash' => rfl

/-- Without one it does not return 0. -/
theorem readBuffer_unfound (sha1 : Bytes → Vector UInt8 20) (htorrent : isTorrent buf fuel = .ok true)
    (hread : ∀ tracker, readTracker buf fuel ≠ .ok (some tracker)) :
    ∀ r, readBuffer sha1 buf fuel none hash = .ok r → r.result ≠ 0 := by
  intro r hr
  rw [readBuffer, htorrent, walk_ok_bind, if_pos rfl, if_neg (by decide)] at hr
  cases hfound : readTracker buf fuel with
  | error e =>
    rw [hfound] at hr
    cases hr
  | ok found =>
    cases found with
    | none =>
      rw [hfound] at hr
      obtain rfl := Except.ok.inj hr
      exact fun h0 => absurd h0 (show (-1 : Int) ≠ 0 by decide)
    | some tracker => exact absurd hfound (hread tracker)

/-- What the call does with a dictionary. -/
theorem readBuffer_iff (sha1 : Bytes → Vector UInt8 20) (h : TextAt buf 0 ((Value.dict es).encode ++ s))
    (hlen : (Value.dict es).encode.length < 2147483648) (hf : (Value.dict es).encode.length ≤ fuel)
    (hempty : hash[0]? = some 0) (url : Bytes) (info : List (Bytes × Value)) :
    (∃ r, readBuffer sha1 buf fuel none hash = .ok r ∧ r.result = 0 ∧ r.tracker = some (some (url ++ [0])) ∧
      ∃ hash', r.hash = some (some hash') ∧ IsHash sha1 info hash') ↔
    ∃ info', HasTorrent es url info' ∧ sha1 (Value.dict info').encode = sha1 (Value.dict info).encode := by
  have htorrent := isTorrent_dict h hlen hf
  constructor
  · rintro ⟨r, hr, hzero, htracker, hash', hhash, his⟩
    by_cases hread : ∃ tracker, readTracker buf fuel = .ok (some tracker)
    · obtain ⟨tracker, hread⟩ := hread
      rw [readBuffer_found sha1 htorrent hempty hread] at hr
      cases hcopy : readHash sha1 buf fuel hash with
      | error e =>
        rw [hcopy] at hr
        cases hr
      | ok hash'' =>
        rw [hcopy] at hr
        obtain rfl := Except.ok.inj hr
        obtain rfl : hash'' = hash' := Option.some.inj (Option.some.inj hhash)
        obtain rfl : tracker = url ++ [0] := Option.some.inj (Option.some.inj htracker)
        obtain ⟨url', hurl, heq⟩ := (readTracker_iff h hlen hf _).1 hread
        obtain rfl := List.append_cancel_right heq
        obtain ⟨info', hinfo, hmem⟩ := (readHash_iff sha1 h hlen hf hash _).1 hcopy
        obtain ⟨copied, hcopied, his'⟩ := exists_copy hash sha1 info'
        obtain rfl := Option.some.inj (hcopied.symm.trans hmem)
        refine ⟨info', ⟨hurl, hinfo⟩, ?_⟩
        exact Vector.toList_inj.1 (hexEncode_injective (List.append_cancel_right (his'.symm.trans his)))
    · exact absurd hzero (readBuffer_unfound sha1 htorrent (fun tracker ht => hread ⟨tracker, ht⟩) r hr)
  · rintro ⟨info', ⟨hurl, hinfo⟩, hsha⟩
    obtain ⟨hash', hcopy, his⟩ := exists_copy hash sha1 info'
    rw [readBuffer_found sha1 htorrent hempty ((readTracker_iff h hlen hf (url ++ [0])).2 ⟨url, hurl, rfl⟩),
      (readHash_iff sha1 h hlen hf hash hash').2 ⟨info', hinfo, hcopy⟩]
    refine ⟨_, rfl, rfl, rfl, hash', rfl, ?_⟩
    rwa [IsHash, hsha] at his

/-- A file that does not start with an entity is refused. -/
theorem readBuffer_broken (sha1 : Bytes → Vector UInt8 20) {x : Bytes} (hx : BencNul.Broken x) (h : TextAt buf 0 (x ++ s))
    (hlen : x.length < 2147483648) (hf : 2 * x.length ≤ fuel) (tracker : Option Bytes) (hash : Vector UInt8 61) :
    ∀ r, readBuffer sha1 buf fuel tracker hash = .ok r → r.result ≠ 0 := by
  have hl := hx buf s 0 0 fuel h hlen hf
  intro r hr
  rw [readBuffer] at hr
  cases hty : bencEntityType buf 0 with
  | error e =>
    rw [isTorrent, hty] at hr
    cases hr
  | ok type =>
    have hfalse : isTorrent buf fuel = .ok false := by
      rw [isTorrent, hty, walk_ok_bind]
      cases type with
      | dict =>
        simp only [hl, walk_ok_bind]
        rfl
      | _ => rfl
    rw [hfalse, walk_ok_bind, if_neg (by decide)] at hr
    obtain rfl := Except.ok.inj hr
    exact fun h0 => absurd h0 (show (-1 : Int) ≠ 0 by decide)

/-- Some hash function tells two texts apart. -/
theorem exists_separating {x y : Bytes} (h : x ≠ y) : ∃ sha1 : Bytes → Vector UInt8 20, sha1 x ≠ sha1 y := by
  refine ⟨fun b => if b = x then Vector.replicate 20 0 else Vector.replicate 20 1, ?_⟩
  simp only [if_true, if_neg h.symm]
  intro heq
  have h0 := congrArg (fun v : Vector UInt8 20 => v[0]) heq
  simp at h0

/-! ## The file -/

variable {fopen : Bytes → Option Bytes} {filename rest : Bytes} {url : Bytes} {info : List (Bytes × Value)}

/-- What the terminator makes of the dictionary. -/
theorem overwritten_dict (es : List (Bytes × Value)) (k : Nat) :
    (∃ fs, (Value.dict es).encode.set k 0 = (Value.dict fs).encode) ∨ BencNul.Broken ((Value.dict es).encode.set k 0) := by
  by_cases hk : k < (Value.dict es).encode.length
  · rcases BencNul.overwritten (.dict es) hk with ⟨w, hkind, hw⟩ | hb
    · cases w with
      | dict fs => exact Or.inl ⟨fs, hw⟩
      | _ => cases hkind
    · exact Or.inr hb
  · exact Or.inl ⟨es, List.set_eq_of_length_le (by omega)⟩

/-- The buffer starts with what the terminator makes of the dictionary. -/
theorem exists_fileBuffer (x rest : Bytes) (last : UInt8) (hm : 0 ≤ int32 (x ++ rest).length) :
    ∃ buf s, fileBuffer (x ++ rest) last = .ok buf ∧ TextAt buf 0 (x.set (int32 (x ++ rest).length).toNat 0 ++ s) := by
  have hset : ∀ k : Nat, ∃ s, (x ++ rest ++ [last]).set k 0 = x.set k 0 ++ s := by
    intro k
    rw [List.append_assoc]
    by_cases hk : k < x.length
    · exact ⟨rest ++ [last], BencNul.set_before hk 0⟩
    · refine ⟨(rest ++ [last]).set (k - x.length) 0, ?_⟩
      rw [BencNul.set_behind (by omega), List.set_eq_of_length_le (Nat.le_of_not_lt hk)]
  obtain ⟨s, hs⟩ := hset (int32 (x ++ rest).length).toNat
  refine ⟨_, s, by rw [fileBuffer, if_pos hm, hs], textAt_zero _⟩

/-- The call, behind the terminator. -/
theorem readTorrentfile_eq (sha1 : Bytes → Vector UInt8 20) {content buf : Bytes} {last : UInt8} (hopen : fopen filename = some content)
    (hbuf : fileBuffer content last = .ok buf) (fuel : Nat) :
    readTorrentfile sha1 fopen last fuel (some filename) (some none) (some (some hash)) = readBuffer sha1 buf fuel none hash := by
  simp only [readTorrentfile, hopen, hbuf, walk_ok_bind]

/-- A terminator that does no harm: the dictionary that is left is read. -/
theorem reads_of_harmless (hlen : (Value.dict es).encode.length < 2147483648)
    (hopen : fopen filename = some ((Value.dict es).encode ++ rest)) {last : UInt8} (hempty : hash[0]? = some 0)
    (h : TerminatorHarmless es url info ((Value.dict es).encode ++ rest).length) : ReadsTorrent fopen last filename hash url info := by
  obtain ⟨hm, fs, hfs, htorrent⟩ := h
  obtain ⟨buf, s, hbuf, htext⟩ := exists_fileBuffer (Value.dict es).encode rest last hm
  have hlen' : (Value.dict fs).encode.length = (Value.dict es).encode.length := by rw [← hfs, List.length_set]
  rw [hfs] at htext
  intro sha1
  refine ⟨(Value.dict es).encode.length, fun fuel hf => ?_⟩
  rw [readTorrentfile_eq sha1 hopen hbuf]
  exact (readBuffer_iff sha1 htext (by omega) (by omega) hempty url info).2 ⟨info, htorrent, rfl⟩

/-- What is read is in the dictionary that is left. -/
theorem harmless_of_reads (hlen : (Value.dict es).encode.length < 2147483648)
    (hopen : fopen filename = some ((Value.dict es).encode ++ rest)) {last : UInt8} (hempty : hash[0]? = some 0)
    (h : ReadsTorrent fopen last filename hash url info) : TerminatorHarmless es url info ((Value.dict es).encode ++ rest).length := by
  have hm : 0 ≤ int32 ((Value.dict es).encode ++ rest).length := by
    by_contra hneg
    obtain ⟨fuel, hreads⟩ := h fun _ => Vector.replicate 20 0
    obtain ⟨r, hr, -⟩ := hreads fuel (Nat.le_refl _)
    simp only [readTorrentfile, hopen, fileBuffer, if_neg hneg] at hr
    cases hr
  obtain ⟨buf, s, hbuf, htext⟩ := exists_fileBuffer (Value.dict es).encode rest last hm
  have hsame : ((Value.dict es).encode.set (int32 ((Value.dict es).encode ++ rest).length).toNat 0).length =
      (Value.dict es).encode.length := List.length_set
  -- with enough fuel the call is the one behind the terminator
  have hcall : ∀ sha1, ∃ fuel, 2 * (Value.dict es).encode.length ≤ fuel ∧ ∃ r, readBuffer sha1 buf fuel none hash = .ok r ∧
      r.result = 0 ∧ r.tracker = some (some (url ++ [0])) ∧ ∃ hash', r.hash = some (some hash') ∧ IsHash sha1 info hash' := by
    intro sha1
    obtain ⟨fuel₀, hreads⟩ := h sha1
    refine ⟨fuel₀ + 2 * (Value.dict es).encode.length, by omega, ?_⟩
    rw [← readTorrentfile_eq sha1 hopen hbuf]
    exact hreads _ (by omega)
  rcases overwritten_dict es (int32 ((Value.dict es).encode ++ rest).length).toNat with ⟨fs, hfs⟩ | hb
  · refine ⟨hm, fs, hfs, ?_⟩
    rw [hfs] at htext hsame
    have hfound : ∀ sha1 : Bytes → Vector UInt8 20, ∃ info', HasTorrent fs url info' ∧
        sha1 (Value.dict info').encode = sha1 (Value.dict info).encode := by
      intro sha1
      obtain ⟨fuel, hf, hr⟩ := hcall sha1
      exact (readBuffer_iff sha1 htext (by omega) (by omega) hempty url info).1 hr
    obtain ⟨info', htorrent, -⟩ := hfound fun _ => Vector.replicate 20 0
    have heq : (Value.dict info').encode = (Value.dict info).encode := by
      by_contra hne
      obtain ⟨sha1, hsep⟩ := exists_separating hne
      obtain ⟨info'', htorrent', hsha⟩ := hfound sha1
      obtain rfl := Value.dict.inj (Option.some.inj (htorrent.2.symm.trans htorrent'.2))
      exact hsep hsha
    obtain rfl := Value.dict.inj (encode_injective heq)
    exact htorrent
  · obtain ⟨fuel, hf, r, hr, hzero, -⟩ := hcall fun _ => Vector.replicate 20 0
    exact absurd hzero (readBuffer_broken _ hb htext (by omega) (by omega) none hash r hr)

end TorrentFilesAux

open TorrentFilesAux

/-- For every file that begins with a dictionary shorter than 2^31 bytes, anything behind it, that has a string under `announce` and a
dictionary under `info`: the call returns the string and the hash of exactly the bytes of the dictionary if and only if the terminator
does no harm. It does none in a file shorter than 2^31 bytes. -/
theorem readTorrentfile_iff {es : List (Bytes × Value)} {url : Bytes} {info : List (Bytes × Value)} (hes : HasTorrent es url info)
    (hlen : (Value.dict es).encode.length < 2147483648) {fopen : Bytes → Option Bytes} {filename rest : Bytes}
    (hopen : fopen filename = some ((Value.dict es).encode ++ rest)) (last : UInt8) {hash : Vector UInt8 61} (hempty : hash[0]? = some 0) :
    (ReadsTorrent fopen last filename hash url info ↔ TerminatorHarmless es url info ((Value.dict es).encode ++ rest).length) ∧
    (((Value.dict es).encode ++ rest).length < 2147483648 → ReadsTorrent fopen last filename hash url info) := by
  refine ⟨⟨harmless_of_reads hlen hopen hempty, reads_of_harmless hlen hopen hempty⟩, fun hshort => ?_⟩
  refine reads_of_harmless hlen hopen hempty ⟨?_, es, ?_, hes⟩
  · rw [int32_of_lt (by omega) (by omega)]
    omega
  · rw [int32_of_lt (by omega) (by omega), Int.toNat_natCast]
    exact List.set_eq_of_length_le (by rw [List.length_append]; omega)

namespace TorrentFilesExample

/-- An `info` stands inside another value in front of the one that counts. -/
def es : List (Bytes × Value) :=
  [(ascii "comment", .str (ascii "4:info")), (ascii "announce", .str (ascii "http://t")),
    (ascii "info", .dict [(ascii "a", .str [0, 255])]), (ascii "x", .dict [(ascii "announce", .str [])])]

theorem hasTorrent : HasTorrent es (ascii "http://t") [(ascii "a", .str [0, 255])] := by
  constructor
  · rfl
  · rfl

end TorrentFilesExample

open TorrentFilesExample

/-- What the example is followed by in a file of this length. -/
def zeros (length : Nat) : Bytes := List.replicate (length - (Value.dict es).encode.length) 0

theorem length_zeros {length : Nat} (h : 1000 ≤ length) : ((Value.dict es).encode ++ zeros length).length = length := by
  have hlen : (Value.dict es).encode.length < 1000 := by decide
  rw [List.length_append, zeros, List.length_replicate]
  omega

/-- A file of 2^32 bytes has the length 0, and the terminator goes where the dictionary begins. -/
theorem not_readsTorrent_long : ¬ReadsTorrent (fun _ => some ((Value.dict es).encode ++ zeros 4294967296)) 0 []
    (Vector.replicate 61 0) (ascii "http://t") [(ascii "a", .str [0, 255])] := by
  intro h
  obtain ⟨-, fs, hfs, -⟩ := harmless_of_reads (by decide) rfl rfl h
  rw [length_zeros (by omega), encode_dict, encode_dict] at hfs
  have hzero : (int32 ((4294967296 : Nat) : Int)).toNat = 0 := by decide
  rw [hzero, List.set_cons_zero] at hfs
  exact absurd (List.cons.inj hfs).1 (by decide)

/-- The same dictionary in a file of its own. -/
theorem readTorrentfile_iff_short : ReadsTorrent (fun _ => some ((Value.dict es).encode ++ [])) 7 [] (Vector.replicate 61 0)
    (ascii "http://t") [(ascii "a", .str [0, 255])] :=
  (readTorrentfile_iff hasTorrent (by decide) rfl 7 rfl).2 (by decide)

end Traccoon
