import Traccoon.Lib.Bencode
import Traccoon.Lemmas.HashValues

/-!
# Requests that are refused

`track` and `scrape` refuse a request where the value of `getTorrentId` is one of their two error codes, and `track` where the peers
query cannot be prepared or bound. They go on in every other case. A refusal is a dictionary with a failure reason, and leaves the
tables alone.
-/

namespace Traccoon

open CString Bencode

/-- A bencoded dictionary with a failure reason and nothing else. -/
def FailureReply (pieces : List Bytes) : Prop :=
  ∃ reason, pieces.flatten = (Value.dict [(ascii "failure reason", .str reason)]).encode

/-- The client gets a failure reason, and the tables are as they were. -/
def Refuses (db : Db) (effects : Effects) : Prop :=
  effects.db = db ∧ ∃ pieces, effects.sent = sendHttpHeaders (ascii "200 OK") standardHeader ++ pieces ∧ FailureReply pieces

/-- The lookup of a hash ends the request: the statement could not be made ready, or no torrent has the hash (or one whose id reads as
an error code), or it failed with a code that the switch names (or that is one of the error codes). -/
def LookupEnds (db : Db) (hash : Bytes) (e : StmtEnv) : Prop :=
  e.ready 1 = false ∨
    match e.step with
    | .runs => ∀ id, db.queryTorrentId hash = some id → int32 id = dbNosuchhash ∨ int32 id = dbFailed
    | .fails c => c.1 = sqliteBusy ∨ c.1 = sqliteError ∨ c.1 = dbNosuchhash ∨ c.1 = dbFailed

namespace RefusalsAux

theorem failureReply_text {text reason : Bytes} (h : cstr text = (Value.dict [(ascii "failure reason", .str reason)]).encode) :
    FailureReply (sendString text) := ⟨reason, by rw [sendString, List.flatten_singleton, h]⟩

theorem failureReply_hashNotRecognized : FailureReply (sendString hashNotRecognized) := by
  refine @failureReply_text _ (ascii "Hash not recognized") ?_
  simp only [encode_dict, encodeEntries, encode_str]
  decide

theorem failureReply_databaseErrorTid : FailureReply (sendString databaseErrorTid) := by
  refine @failureReply_text _ (ascii "Database error (TID)") ?_
  simp only [encode_dict, encodeEntries, encode_str]
  decide

theorem failureReply_serverError : FailureReply (sendString serverError) := by
  refine @failureReply_text _ (ascii "Server error") ?_
  simp only [encode_dict, encodeEntries, encode_str]
  decide

/-- A dictionary whose first key has another length is not a failure reason. -/
theorem not_failureReply {pieces : List Bytes} {b : UInt8} {t : Bytes} (h : pieces.flatten = 100 :: b :: t) (hb : b ≠ 49) :
    ¬FailureReply pieces := by
  rintro ⟨reason, hr⟩
  have hkey : encodeStr (ascii "failure reason") = 49 :: ascii "4:failure reason" := by decide
  rw [h, encode_dict, encodeEntries, hkey] at hr
  simp only [List.cons_append, List.cons.injEq, true_and] at hr
  exact hb hr.1

/-- What the lookup makes of a request. -/
theorem lookupEnds_iff (db : Db) (hash : Bytes) (e : StmtEnv) :
    LookupEnds db hash e ↔ getTorrentId db hash e = dbNosuchhash ∨ getTorrentId db hash e = dbFailed := by
  unfold LookupEnds getTorrentId querySingleInt
  cases hr : e.ready 1 with
  | false => simp
  | true =>
    simp only [Bool.true_eq_false, false_or, if_true]
    cases hs : e.step with
    | runs =>
      cases hq : db.queryTorrentId hash with
      | none => simp
      | some id => simp
    | fails c =>
      simp only [stepFailure]
      split
      · rename_i hc
        rcases hc with hc | hc
        · simp [hc]
        · simp [hc]
      · rename_i hc
        simp only [not_or] at hc
        simp [hc.1, hc.2]

end RefusalsAux

open RefusalsAux

/-- An announce is refused where its lookup ends it, or where the peers query cannot be prepared or bound. -/
theorem track_refuses_iff (inet : Inet) {ar ar' : AnnounceRequest} (hp : prepareData ar = some ar') (interval : Int) (e : TrackEnv)
    (db : Db) :
    ∃ effects, track inet ar interval e db = some effects ∧
      (Refuses db effects ↔ LookupEnds db (cstr ar'.infoHash) e.torrent ∨ e.prepare ≠ sqliteOk ∨ e.bind ≠ sqliteOk) := by
  obtain ⟨error, db', hu⟩ := updatePeer_isSome (getTorrentId db (cstr ar'.infoHash) e.torrent) ar' e.first e.again db
  rw [lookupEnds_iff]
  simp only [track, hp, Option.bind_eq_bind, Option.bind_some, hu]
  split
  · rename_i h
    exact ⟨_, rfl, ⟨fun _ => Or.inl (Or.inl h), fun _ => ⟨rfl, _, rfl, failureReply_hashNotRecognized⟩⟩⟩
  · rename_i h1
    split
    · rename_i h
      exact ⟨_, rfl, ⟨fun _ => Or.inl (Or.inr h), fun _ => ⟨rfl, _, rfl, failureReply_databaseErrorTid⟩⟩⟩
    · rename_i h2
      split
      · rename_i h
        exact ⟨_, rfl, ⟨fun _ => Or.inr (Or.inl h), fun _ => ⟨rfl, _, rfl, failureReply_serverError⟩⟩⟩
      · rename_i h3
        split
        · rename_i h
          exact ⟨_, rfl, ⟨fun _ => Or.inr (Or.inr h), fun _ => ⟨rfl, _, rfl, failureReply_serverError⟩⟩⟩
        · rename_i h4
          refine ⟨_, rfl, ⟨fun h => ?_, fun h => ?_⟩⟩
          · obtain ⟨-, pieces, hsent, hf⟩ := h
            have hpieces := List.append_cancel_left hsent
            exact absurd hf (hpieces ▸ not_failureReply (b := 56) rfl (by decide))
          · rcases h with (h | h) | h | h
            · exact absurd h h1
            · exact absurd h h2
            · exact absurd h h3
            · exact absurd h h4

/-- A scrape is refused where its lookup ends it. -/
theorem scrape_refuses_iff (hash : Bytes) (e : ScrapeEnv) (db : Db) :
    Refuses db (scrape (some hash) e db) ↔ LookupEnds db hash e.torrent := by
  rw [lookupEnds_iff]
  simp only [scrape]
  split
  · rename_i h
    exact ⟨fun _ => Or.inl h, fun _ => ⟨rfl, _, rfl, failureReply_hashNotRecognized⟩⟩
  · rename_i h1
    split
    · rename_i h
      exact ⟨fun _ => Or.inr h, fun _ => ⟨rfl, _, rfl, failureReply_databaseErrorTid⟩⟩
    · rename_i h2
      refine ⟨fun h => ?_, fun h => ?_⟩
      · obtain ⟨-, pieces, hsent, hf⟩ := h
        have hpieces := List.append_cancel_left hsent
        exact absurd hf (hpieces ▸ not_failureReply (b := 53) rfl (by decide))
      · rcases h with h | h
        · exact absurd h h1
        · exact absurd h h2

end Traccoon
