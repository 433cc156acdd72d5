import Traccoon.Theorems.GetpeersHash
import Traccoon.Theorems.Outline
import Traccoon.Theorems.TorrentFiles

/-!
# The hash of a torrent, in all three programs

`torrentinfo -H -k info` shows under which hash a torrent is to be entered in the tables of the tracker, and `getpeers` makes its request
from the same file. The hash shown is the one that the tracker then looks up (`programs_agree`).
-/

namespace Traccoon

open CString Bencode Getpeers Torrentinfo

/-- The hash of a torrent, as a text. -/
def torrentHash (sha1 : Bytes → Vector UInt8 20) (info : List (Bytes × Value)) : Bytes := hexEncode (sha1 (Value.dict info).encode).toList

namespace OneHashAux

variable {sha1 : Bytes → Vector UInt8 20} {es info : List (Bytes × Value)} {url : Bytes}

theorem torrentHash_text (sha1 : Bytes → Vector UInt8 20) (info : List (Bytes × Value)) :
    (torrentHash sha1 info).length = maxHexencHashLen ∧ ∀ b ∈ torrentHash sha1 info, b ∈ hexdict := by
  refine ⟨?_, fun b hb => mem_hexEncode hb⟩
  rw [torrentHash, length_hexEncode, Vector.length_toList]
  rfl

/-- `getpeers` sends the hash whose text this is. -/
theorem hexEncode_sentHash (sha1 : Bytes → Vector UInt8 20) (info : List (Bytes × Value)) :
    hexEncode (sentHash (torrentHash sha1 info)) = torrentHash sha1 info := by
  obtain ⟨hlen, hdigits⟩ := torrentHash_text sha1 info
  have hx : ∀ b ∈ hexdict, b ∈ hexDigits := by decide +kernel
  rw [(hexEncode_sentHash_iff hlen fun b hb => hx b (hdigits b hb)).2 hdigits, strtolower_hexdict hdigits]

theorem isXDigit_torrentHash (sha1 : Bytes → Vector UInt8 20) (info : List (Bytes × Value)) :
    ∀ b ∈ torrentHash sha1 info, isXDigit b = true := by
  have hx : ∀ b ∈ hexdict, isXDigit b = true := by decide +kernel
  exact fun b hb => hx b ((torrentHash_text sha1 info).2 b hb)

/-- The array that is filled from the file is the one that `-h` would have filled. -/
theorem exists_array (sha1 : Bytes → Vector UInt8 20) (info : List (Bytes × Value)) :
    ∃ array, memcpy (Vector.replicate 61 0) 0 (torrentHash sha1 info ++ [0]) = some array ∧
      hashArgument (List.replicate 61 0) (torrentHash sha1 info) = .ok array.toList := by
  have hlen := (torrentHash_text sha1 info).1
  simp only [maxHexencHashLen, maxHashLen] at hlen
  refine ⟨_, dif_pos (by rw [List.length_append, hlen]; decide), ?_⟩
  rw [hashArgument_digits (by rw [hlen]; rfl) (isXDigit_torrentHash sha1 info), Except.ok.injEq]
  simp only [Vector.toList_replicate, List.take_zero, List.nil_append, Nat.zero_add, List.length_append, hlen, List.drop_replicate,
    List.append_assoc]
  rfl

/-- What `getpeers` reads from the file. -/
theorem readTorrentfile_array (hes : HasTorrent es url info) {rest : Bytes} (hfile : ((Value.dict es).encode ++ rest).length < 2147483648)
    {fopen : Bytes → Option Bytes} {filename : Bytes} (hopen : fopen filename = some ((Value.dict es).encode ++ rest)) (last : UInt8)
    {array : Vector UInt8 61} (harray : memcpy (Vector.replicate 61 0) 0 (torrentHash sha1 info ++ [0]) = some array) {fuel : Nat}
    (hf : (Value.dict es).encode.length ≤ fuel) :
    readTorrentfile sha1 fopen last fuel (some filename) (some none) (some (some (Vector.replicate 61 0))) =
      .ok { printed := [], tracker := some (some (url ++ [0])), hash := some (some array), result := 0 } := by
  have hlen : (Value.dict es).encode.length < 2147483648 := by
    rw [List.length_append] at hfile
    omega
  have hm : 0 ≤ int32 ((Value.dict es).encode ++ rest).length := by
    rw [int32_of_lt (by omega) (by omega)]
    omega
  obtain ⟨buf, s, hbuf, htext⟩ := TorrentFilesAux.exists_fileBuffer (Value.dict es).encode rest last hm
  rw [int32_of_lt (by omega) (by omega), Int.toNat_natCast, List.set_eq_of_length_le (by rw [List.length_append]; omega)] at htext
  have htracker := (TorrentFilesAux.readTracker_iff htext hlen hf (url ++ [0])).2 ⟨url, hes.1, rfl⟩
  have hhash := (TorrentFilesAux.readHash_iff sha1 htext hlen hf (Vector.replicate 61 0) array).2 ⟨info, hes.2, harray⟩
  rw [TorrentFilesAux.readTorrentfile_eq sha1 hopen hbuf,
    TorrentFilesAux.readBuffer_found sha1 (TorrentFilesAux.isTorrent_dict htext hlen hf) rfl htracker, hhash]
  rfl

/-- The line of a node starts with its hash. -/
theorem outline_hash {read : Value → Int} {flags : Flags} (hflag : flags.displayHash = true) (info : List (Bytes × Value)) :
    torrentHash sha1 info ++ ascii " " <+: outline read sha1 flags 0 (.dict info) := by
  rw [outline, leadText, if_pos hflag, List.append_assoc]
  exact List.prefix_append _ _

theorem length_info : (ascii "info").length = 4 := by decide

theorem descend_info (hes : HasTorrent es url info) : descend (tokens (ascii "info")) (.dict es) = ([], .dict info) := by
  have htokens : tokens (ascii "info") = [ascii "info"] := by decide
  simp only [htokens, descend, child, hes.2]

end OneHashAux

open OneHashAux

/-- For every file shorter than 2^31 bytes that begins with a dictionary, anything behind it, with a string under `announce` and a
dictionary under `info`, and whatever the hash function: `torrentinfo -H -k info`, with any other flags, prints the hash of the torrent
first; and with what `getpeers` reads from the file, whatever the other settings, its request to a tracker whose path is `announce` makes
the tracker look up that text, if the request fits what the tracker peeks at. -/
theorem programs_agree (inet : Inet) (conn : SockAddr) (sha1 : Bytes → Vector UInt8 20) (es : List (Bytes × Value)) (url : Bytes)
    (info : List (Bytes × Value)) (hes : HasTorrent es url info) (rest : Bytes)
    (hfile : ((Value.dict es).encode ++ rest).length < 2147483648) (fopen : Bytes → Option Bytes) (filename : Bytes)
    (hopen : fopen filename = some ((Value.dict es).encode ++ rest)) (last : UInt8) (fuel : Nat)
    (hf : 2 * (Value.dict es).encode.length + 4 < fuel) :
    (∀ flags : Flags, flags.displayHash = true →
      ∃ events, displayFile sha1 flags ((Value.dict es).encode ++ (rest ++ [0])) (some (ascii "info")) fuel = .ok (events, 0) ∧
        torrentHash sha1 info ++ ascii " " <+: printed events) ∧
    ∃ array, readTorrentfile sha1 fopen last fuel (some filename) (some none) (some (some (Vector.replicate 61 0))) =
        .ok { printed := [], tracker := some (some (url ++ [0])), hash := some (some array), result := 0 } ∧
      ∀ (o : Settings) (u : UrlComponents), o.hash = array → u.path = ascii "announce" →
        ∃ text, request o u = some text ∧ (text.length < recvSize → LooksUp inet text conn (torrentHash sha1 info)) := by
  constructor
  · intro flags hflag
    have hlen : (Value.dict es).encode.length < 2147483648 := by
      rw [List.length_append] at hfile
      omega
    obtain ⟨skipped, r, s, hresolve, hskipped, htext, hle⟩ := @OutlineAux.resolvePath_descend
      ((Value.dict es).encode ++ (rest ++ [0])) fuel (ascii "info") (.dict es) 0 (rest ++ [0]) (textAt_zero _) (by omega)
      (by rw [length_info]; omega)
    rw [descend_info hes] at hskipped htext hle
    simp only at hskipped htext hle
    obtain ⟨events, hdisplay, hprinted⟩ := @OutlineAux.displayNode_prints sha1 flags _ s fuel _ r _ skipped htext (by omega) (by omega)
      hresolve
    refine ⟨events, hdisplay, ?_⟩
    rw [hprinted, hskipped, List.nil_append]
    exact outline_hash hflag info
  · obtain ⟨array, harray, hargument⟩ := exists_array sha1 info
    refine ⟨array, readTorrentfile_array hes hfile hopen last harray (by omega), ?_⟩
    intro o u ho hpath
    rw [← ho] at hargument
    have hlook := @GetpeersHashAux.request_looksUp inet conn _ (torrentHash_text sha1 info).1 (isXDigit_torrentHash sha1 info) o hargument
      u hpath
    rwa [hexEncode_sentHash] at hlook

open TraversalExample TorrentFilesExample

namespace OneHashExample

/-- The text that `noHash` gives. -/
def zeroText : Bytes := ascii "0000000000000000000000000000000000000000"

/-- The default settings, with that hash. -/
def settings : Settings := GetpeersHashExample.settings zeroText (by decide)

/-- What `getpeers` reads from the file. -/
def fromFile : Walk TorrentFile :=
  readTorrentfile noHash (fun _ => some ((Value.dict es).encode ++ [])) 7 200 (some []) (some none) (some (some (Vector.replicate 61 0)))

theorem fromFile_hash {array : Vector UInt8 61} {tracker : Option (Option Bytes)}
    (h : fromFile = .ok { printed := [], tracker := tracker, hash := some (some array), result := 0 }) : array = settings.hash := by
  have hread : fromFile.toOption.bind TorrentFile.hash = some (some settings.hash) := by decide +kernel
  rw [h] at hread
  exact Option.some.inj (Option.some.inj hread)

end OneHashExample

open OneHashExample

/-- A file with an `info` that only looks like one in front of the other: all three programs give it the same hash. -/
theorem programs_agree_comment :
    (∃ events, displayFile noHash flags ((Value.dict es).encode ++ [0]) (some (ascii "info")) 200 = .ok (events, 0) ∧
      zeroText ++ ascii " " <+: printed events) ∧
    fromFile = .ok { printed := [], tracker := some (some (ascii "http://t" ++ [0])), hash := some (some settings.hash), result := 0 } ∧
    ∃ text, request settings GetpeersHashExample.url = some text ∧ LooksUp PlainInet.inet text GetpeersHashExample.conn zeroText := by
  have h := programs_agree PlainInet.inet GetpeersHashExample.conn noHash es (ascii "http://t") _ hasTorrent [] (by decide)
    (fun _ => some ((Value.dict es).encode ++ [])) [] rfl 7 200 (by decide)
  obtain ⟨array, hread, hlook⟩ := h.2
  obtain rfl := fromFile_hash hread
  obtain ⟨text, hreq, hlook⟩ := hlook settings GetpeersHashExample.url rfl rfl
  have hsize : (request settings GetpeersHashExample.url).map (fun t => decide (t.length < recvSize)) = some true := by decide +kernel
  rw [hreq, Option.map_some, Option.some.injEq, decide_eq_true_eq] at hsize
  exact ⟨h.1 flags rfl, hread, text, hreq, hlook hsize⟩

end Traccoon
