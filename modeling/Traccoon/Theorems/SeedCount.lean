import Traccoon.Comm
import Traccoon.Lib.Query
import Traccoon.Lemmas.UpdatePeer
import Traccoon.Theorems.Reannounce

/-!
# What the seed and peer counts count

A scrape counts as seeds the rows whose `left` column is 0 and as peers the others. The column holds the number behind the first `left=`
of the request target, narrowed to an `int`: a peer that lacks a positive multiple of 2^32 bytes is stored with 0 and counted as a seed,
and so is one whose target has another `left=0` in front of its parameter. The counts agree with what the peers last announced exactly
when as many rows are wrongly 0 as are wrongly not (`counts_iff`).
-/

namespace Traccoon

open CString Query

/-- An announce that a request target makes, with a decimal number as its parameter `left`. -/
structure LeftAnnounce (inet : Inet) extends Announce where
  target : Bytes
  conn : SockAddr
  request : AnnounceRequest
  built : parseAnnounce inet target conn = .announce request
  prepared : prepareData request = some ar
  digits : Bytes
  named : lookup (ascii "left") target = some digits
  decimal : Digits digits ∧ digits ≠ []
  bound : digitsVal digits < 9223372036854775808

/-- What a peer said was left, and the number that `parseSocket` reads. -/
structure BytesLeft where
  said : Nat
  read : Nat
  deriving DecidableEq

/-- The bytes left of an announce: by its parameter, and by the text behind the first `left=` of its target. -/
def LeftAnnounce.bytesLeft {inet : Inet} (a : LeftAnnounce inet) : BytesLeft :=
  { said := digitsVal a.digits, read := ((textAfter a.target (ascii "left=")).map strtoul).getD 0 }

/-- The first `left=` of the target is that of the parameter. -/
def LeftAnnounce.First {inet : Inet} (a : LeftAnnounce inet) : Prop :=
  textAfter a.target (ascii "left=") = textOf (ascii "left") true (queryOf a.target)

/-- The announces of a history as they were recorded. -/
def recordedAs {inet : Inet} (history : List (LeftAnnounce inet × Int)) : List (Announce × Int) :=
  history.map (fun h => (h.1.toAnnounce, h.2))

/-- What a peer last announced to be left. `before` is what the peers stored before the run last announced. -/
def lastLeft {inet : Inet} (before : Int × Bytes → BytesLeft) : List (LeftAnnounce inet × Int) → Int × Bytes → BytesLeft
  | [], k => before k
  | (a, _) :: history, k => if a.key = k then a.bytesLeft else lastLeft before history k

/-- The two counts of a torrent are the numbers of its stored peers that last announced nothing left, and something left. -/
def CountsRight {inet : Inet} (before : Int × Bytes → BytesLeft) (history : List (LeftAnnounce inet × Int)) (db : Db) (torrent : Int) :
    Prop :=
  db.getSeedCount torrent =
    some (((db.torrentPeers torrent).filter (fun r => (lastLeft before history r.key).said == 0)).length : Int) ∧
  db.getPeersCount torrent =
    some (((db.torrentPeers torrent).filter (fun r => decide (0 < (lastLeft before history r.key).said))).length : Int)

/-- The number read is a multiple of 2^32: it is stored as 0. -/
def BytesLeft.vanishes (l : BytesLeft) : Bool := l.read % 4294967296 == 0

/-- One row per peer, whose `left` column is the number read in the peer's last announce, narrowed. -/
def LeftInv {inet : Inet} (before : Int × Bytes → BytesLeft) (history : List (LeftAnnounce inet × Int)) (db : Db) : Prop :=
  OneRowPerPeer db ∧ ∀ r ∈ db.peers, r.left = int32 (lastLeft before history r.key).read

namespace SeedCountAux

variable {inet : Inet} {before : Int × Bytes → BytesLeft}

/-- The `left` field of a request is the number read, narrowed. -/
theorem left_eq (a : LeftAnnounce inet) : a.ar.left = int32 a.bytesLeft.read := by
  have hleft : a.request.left = int32 a.bytesLeft.read := by
    have hparse := a.built
    unfold parseAnnounce at hparse
    split at hparse
    · split at hparse
      · rw [← Request.announce.inj hparse]
        simp only [LeftAnnounce.bytesLeft]
        cases textAfter a.target (ascii "left=") with
        | some t => rfl
        | none => rfl
      · cases hparse
    · cases hparse
  obtain ⟨x, -, hx⟩ := Option.bind_eq_some_iff.1 a.prepared
  rw [← Option.some.inj hx]
  exact hleft

/-- A target whose first `left=` is that of the parameter is read right. -/
theorem read_eq_said {a : LeftAnnounce inet} (h : a.First) : a.bytesLeft.read = a.bytesLeft.said := by
  obtain ⟨tail, ht, htail⟩ := lookup_eq_some a.named
  have hstop : strtoul (a.digits ++ tail) = strtoul a.digits := by
    cases tail with
    | nil => rw [List.append_nil]
    | cons c t =>
      obtain rfl := htail c t rfl
      exact strtoul_append_cons (by decide) (by decide) (by decide) (by decide) _ _
  have hbound := a.bound
  rw [LeftAnnounce.First, ht] at h
  simp only [LeftAnnounce.bytesLeft, h, Option.map_some, Option.getD_some, hstop]
  exact strtoul_digits a.decimal.1 a.decimal.2 (by omega)

/-- One recorded announce keeps the invariant. -/
theorem leftInv_record {history : List (LeftAnnounce inet × Int)} {db db' : Db} {a : LeftAnnounce inet} (now : Int)
    (hi : LeftInv before history db) (hr : a.record db = some (0, db')) (hfit : RowIdFits db a.key) :
    LeftInv before ((a, now) :: history) db' := by
  obtain ⟨h1, hleft⟩ := hi
  obtain ⟨h1', own, hkey, hown, -, hmem⟩ := (updatePeer_leaves hr).mem_recorded h1 hfit
  refine ⟨h1', fun r hr' => ?_⟩
  rcases (hmem r).1 hr' with rfl | ⟨hk, hm⟩
  · rw [lastLeft, if_pos (show a.key = r.key from hkey.symm), hown]
    exact left_eq a
  · rw [lastLeft, if_neg (show ¬a.key = r.key from fun h => hk h.symm)]
    exact hleft r hm

/-- The run lemma. -/
theorem leftInv_recorded {db₀ : Db} (h0 : LeftInv before ([] : List (LeftAnnounce inet × Int)) db₀) :
    ∀ (history : List (LeftAnnounce inet × Int)) (db : Db),
    Recorded db₀ (recordedAs history) db → RowIdsRead db₀ (recordedAs history) → LeftInv before history db := by
  intro history
  induction history with
  | nil =>
    intro db h _
    cases h
    exact h0
  | cons h history ih =>
    intro db hrec hfit
    cases hrec with
    | cons hrec hr ht => exact leftInv_record h.2 (ih _ hrec hfit.earlier) hr (hfit _ _ _ _ (List.suffix_refl _) hrec)

/-- What peers last announced is read right if every announce is, and what was announced before. -/
theorem lastLeft_read_eq_said {history : List (LeftAnnounce inet × Int)} (hfirst : ∀ h ∈ history, h.1.First) {k : Int × Bytes}
    (hbefore : (before k).read = (before k).said) : (lastLeft before history k).read = (lastLeft before history k).said := by
  induction history with
  | nil => exact hbefore
  | cons h history ih =>
    rw [lastLeft]
    split
    · exact read_eq_said (hfirst h List.mem_cons_self)
    · exact ih fun h' hm => hfirst h' (List.mem_cons_of_mem _ hm)

/-- Two counts of elements agree exactly when as many are counted by the one alone as by the other alone. -/
theorem length_filter_eq_iff {α : Type} (p q : α → Bool) (l : List α) :
    (l.filter p).length = (l.filter q).length ↔
      (l.filter (fun x => p x && !q x)).length = (l.filter (fun x => !p x && q x)).length := by
  have hsum : (l.filter p).length + (l.filter (fun x => !p x && q x)).length =
      (l.filter q).length + (l.filter (fun x => p x && !q x)).length := by
    induction l with
    | nil => rfl
    | cons x l ih =>
      cases hp : p x <;> cases hq : q x <;> simp only [List.filter_cons, hp, hq, Bool.not_true, Bool.not_false, Bool.and_self,
        Bool.and_true, Bool.and_false, if_true, if_false, List.length_cons, Bool.false_eq_true] <;> omega
  omega

/-- The counts follow the column, and every row is counted once. -/
theorem countsRight_iff {history : List (LeftAnnounce inet × Int)} {db : Db} (hi : LeftInv before history db) (torrent : Int) :
    CountsRight before history db torrent ↔
      ((db.torrentPeers torrent).filter (fun r => (lastLeft before history r.key).vanishes)).length =
        ((db.torrentPeers torrent).filter (fun r => (lastLeft before history r.key).said == 0)).length := by
  have hcol : ∀ r ∈ db.torrentPeers torrent, (r.left == 0) = (lastLeft before history r.key).vanishes := by
    intro r hr
    have hz : r.left = 0 ↔ (lastLeft before history r.key).read % 4294967296 = 0 := by
      rw [hi.2 r (List.mem_filter.1 hr).1, int32_eq_zero_iff]
      omega
    rw [BytesLeft.vanishes, Bool.eq_iff_iff, beq_iff_eq, beq_iff_eq, hz]
  have hseeds := List.filter_congr hcol
  have hall := List.length_eq_length_filter_add (l := db.torrentPeers torrent) (fun r => r.left == 0)
  have hsaid := List.length_eq_length_filter_add (l := db.torrentPeers torrent) (fun r => (lastLeft before history r.key).said == 0)
  have hpos : ∀ r ∈ db.torrentPeers torrent, decide (0 < (lastLeft before history r.key).said) =
      !((lastLeft before history r.key).said == 0) := by
    intro r _
    cases (lastLeft before history r.key).said <;> simp
  have hpeers := List.filter_congr hpos
  simp only [CountsRight, Db.getSeedCount, Db.getPeersCount, Option.some.injEq, Nat.cast_inj, ← hseeds, hpeers, bne]
  omega

end SeedCountAux

open SeedCountAux

/-- For every run of announces with a decimal `left` parameter below 2^63, one at a time and each returning 0, over tables with one
row per peer that hold what was read of the peers before: as long as the row ids read fit an `int`, the counts of a torrent are right
exactly when as many of its stored peers last announced something left where a multiple of 2^32 was read as announced nothing left where
none was. Where the first `left=` of each target is that of the parameter, that is when no peer last announced a positive multiple of
2^32. -/
theorem counts_iff (inet : Inet) (before : Int × Bytes → BytesLeft) (db₀ db : Db) (h1 : OneRowPerPeer db₀)
    (hbefore : ∀ r ∈ db₀.peers, r.left = int32 (before r.key).read) (history : List (LeftAnnounce inet × Int))
    (h : Recorded db₀ (recordedAs history) db) (hfit : RowIdsRead db₀ (recordedAs history)) (torrent : Int) :
    (CountsRight before history db torrent ↔
      ((db.torrentPeers torrent).filter fun r =>
        (lastLeft before history r.key).vanishes && !((lastLeft before history r.key).said == 0)).length =
      ((db.torrentPeers torrent).filter fun r =>
        !(lastLeft before history r.key).vanishes && ((lastLeft before history r.key).said == 0)).length) ∧
    ((∀ h ∈ history, h.1.First) → (∀ k, (before k).read = (before k).said) →
      (CountsRight before history db torrent ↔ ∀ r ∈ db.torrentPeers torrent,
        ¬(0 < (lastLeft before history r.key).said ∧ 4294967296 ∣ (lastLeft before history r.key).said))) := by
  have hi := leftInv_recorded ⟨h1, hbefore⟩ history db h hfit
  rw [countsRight_iff hi, length_filter_eq_iff]
  refine ⟨Iff.rfl, ?_⟩
  intro hfirst hread
  have hsaid : ∀ k, (lastLeft before history k).read = (lastLeft before history k).said :=
    fun k => lastLeft_read_eq_said hfirst (hread k)
  have hnone : (db.torrentPeers torrent).filter (fun r =>
      !(lastLeft before history r.key).vanishes && ((lastLeft before history r.key).said == 0)) = [] := by
    rw [List.filter_eq_nil_iff]
    intro r _
    simp only [BytesLeft.vanishes, hsaid, Bool.and_eq_true, Bool.not_eq_true', beq_eq_false_iff_ne, beq_iff_eq]
    omega
  rw [hnone, List.length_nil, List.length_eq_zero_iff, List.filter_eq_nil_iff]
  refine forall_congr' fun r => forall_congr' fun _ => ?_
  simp only [BytesLeft.vanishes, hsaid, Bool.and_eq_true, Bool.not_eq_true', beq_eq_false_iff_ne, beq_iff_eq]
  omega

namespace SeedCountExample

/-- The request target behind the path. -/
def target (left : String) : Bytes :=
  ascii ("?info_hash=aaaaaaaaaaaaaaaaaaaa&peer_id=-TC0010-000000000001&port=6881&left=" ++ left)

/-- The announce request that it makes. -/
def request (left : Int) : AnnounceRequest :=
  { infoHash := copyParam (ascii "aaaaaaaaaaaaaaaaaaaa"), peerId := copyParam (ascii "-TC0010-000000000001"),
    ip := ascii "10.0.0.1", port := 6881, protover := 4, event := .none, left := left, compact := false, noPeerId := false,
    numwant := 50 }

/-- The request as `track` prepares it: its hash in hex. -/
def prepared (left : Int) : AnnounceRequest :=
  { request left with infoHash := (hashEncodeHex (request left).infoHash maxUrlencHashLen).1 }

theorem prepareData_request (left : Int) : prepareData (request left) = some (prepared left) := by
  have h : destructiveURLDecode (request 0).infoHash = some ((request 0).infoHash, 20) := by decide
  have hl : strtolower (ascii "10.0.0.1") = ascii "10.0.0.1" := by decide
  have hi : (request left).infoHash = (request 0).infoHash := rfl
  rw [prepareData, hi, h]
  simp only [Option.bind_eq_bind, Option.bind_some, prepared, request, hl]
  rfl

theorem built_wrapping : parseAnnounce PlainInet.inet (target "4294967296") (.in4 (ipv4 10 0 0 1)) = .announce (request 0) := by
  decide +kernel

theorem named_wrapping : lookup (ascii "left") (target "4294967296") = some (ascii "4294967296") := by decide +kernel

theorem decimal_wrapping : Digits (ascii "4294967296") ∧ ascii "4294967296" ≠ [] := by
  unfold Digits
  decide +kernel

/-- An announce of 4 GiB left. -/
def wrapping : LeftAnnounce PlainInet.inet :=
  { torrentid := 1, ar := prepared 0, first := .ok 100, again := .ok 100, target := target "4294967296",
    conn := .in4 (ipv4 10 0 0 1), request := request 0, built := built_wrapping, prepared := prepareData_request 0,
    digits := ascii "4294967296", named := named_wrapping, decimal := decimal_wrapping, bound := by decide }

theorem built_small : parseAnnounce PlainInet.inet (target "9") (.in4 (ipv4 10 0 0 1)) = .announce (request 9) := by
  decide +kernel

theorem named_small : lookup (ascii "left") (target "9") = some (ascii "9") := by decide +kernel

theorem decimal_small : Digits (ascii "9") ∧ ascii "9" ≠ [] := by
  unfold Digits
  decide +kernel

/-- An announce of nine bytes left. -/
def small : LeftAnnounce PlainInet.inet :=
  { torrentid := 1, ar := prepared 9, first := .ok 100, again := .ok 100, target := target "9",
    conn := .in4 (ipv4 10 0 0 1), request := request 9, built := built_small, prepared := prepareData_request 9,
    digits := ascii "9", named := named_small, decimal := decimal_small, bound := by decide }

theorem first_small : small.First := by
  unfold LeftAnnounce.First
  decide +kernel

/-- No peer has announced itself before the run. -/
def nothing : Int × Bytes → BytesLeft := fun _ => ⟨0, 0⟩

/-- The tables before the run, with one torrent. -/
def db₀ : Db := Db.ofTorrent ⟨1, hexEncode (ascii "aaaaaaaaaaaaaaaaaaaa"), 0⟩

/-- The tables after the announce. -/
def db₁ (a : LeftAnnounce PlainInet.inet) : Db := ((a.record db₀).map (·.2)).getD db₀

end SeedCountExample

open SeedCountExample

/-- A peer that lacks nine bytes is counted as one. -/
theorem counts_iff_small : CountsRight nothing [(small, 100)] (db₁ small) 1 := by
  have h : Recorded db₀ (recordedAs [(small, 100)]) (db₁ small) := Recorded.cons Recorded.nil (by rfl) (by rfl)
  refine ((counts_iff PlainInet.inet nothing db₀ (db₁ small) (by decide) (fun r hr => by cases hr) [(small, 100)] h ?_ 1).2 ?_
    (fun _ => rfl)).2 ?_
  · intro a now earlier db hs hrec
    rcases List.suffix_cons_iff.1 hs with hs | hs
    · obtain ⟨ha, rfl⟩ := List.cons.inj hs
      obtain ⟨rfl, rfl⟩ := Prod.mk.inj ha
      cases hrec
      decide
    · exact absurd (List.suffix_nil.1 hs) (by simp)
  · intro h hm
    rw [List.mem_singleton.1 hm]
    exact first_small
  · decide

/-- A peer that lacks 4294967296 bytes is counted as a seed. -/
theorem not_countsRight_wrapping :
    Recorded db₀ (recordedAs [(wrapping, 100)]) (db₁ wrapping) ∧
    (lastLeft nothing [(wrapping, 100)] wrapping.key).said = 4294967296 ∧
    (db₁ wrapping).peers.map Peer.key = [wrapping.key] ∧
    (db₁ wrapping).getSeedCount 1 = some 1 ∧ (db₁ wrapping).getPeersCount 1 = some 0 ∧
    ¬CountsRight nothing [(wrapping, 100)] (db₁ wrapping) 1 := by
  refine ⟨Recorded.cons Recorded.nil (by rfl) (by rfl), by decide, by decide, by decide, by decide,
    fun h => ?_⟩
  have h1 := h.1
  revert h1
  decide

end Traccoon
