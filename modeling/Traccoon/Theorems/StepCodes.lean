import Traccoon.Lemmas.Refusals

/-!
# Result codes that no switch names

The switches in `getTorrentId` and `queryTorrentParam` have no default, as that of `prunePeers` has: a code they do not name is
returned in the variable that carries the torrent id or the count. `track` and `scrape` compare a torrent id with two error codes and
go on with any other; a count is printed as it comes. So a failed step is answered with a failure reason only where its code is one of
those that are compared (`announceSafe_iff`, `scrapeSafe_iff`, together `stepCodes_iff`).
-/

namespace Traccoon

open CString

/-- The code that `sqlite3_step` returns for a query of one integer that has this result. -/
def stepCode (value : Option Int) (e : StmtEnv) : Int :=
  match e.step with
  | .runs => if value.isSome then sqliteRow else sqliteDone
  | .fails c => c.1

/-- The codes of the lookup that end a request: those that the switch names, and the error codes they are turned into. -/
def CaughtCode (c : Int) : Prop := c = sqliteDone ∨ c = sqliteBusy ∨ c = sqliteError ∨ c = dbNosuchhash ∨ c = dbFailed

/-- The torrent id that `track` binds to `QUERY_TORRENT_PEERS`, if it gets that far. -/
def boundId (hash : Bytes) (e : TrackEnv) (db : Db) : Option Int :=
  let torrentid := getTorrentId db hash e.torrent
  if torrentid = dbNosuchhash ∨ torrentid = dbFailed ∨ e.prepare ≠ sqliteOk then none else some torrentid

/-- An announce with this hash: unless the lookup steps to a row its result is not used as a torrent id, and the announce is refused. -/
def AnnounceSafe (inet : Inet) (ar : AnnounceRequest) (hash : Bytes) (interval : Int) (e : TrackEnv) (db : Db) : Prop :=
  e.torrent.ready 1 = true → stepCode (db.queryTorrentId hash) e.torrent ≠ sqliteRow →
    boundId hash e db = none ∧ ∃ effects, track inet ar interval e db = some effects ∧ Refuses db effects

/-- The three statements of a scrape that count, with how they are answered. -/
def ScrapeEnv.counts (e : ScrapeEnv) : List ((Db → Int → Option Int) × StmtEnv) :=
  [(Db.getSeedCount, e.seeds), (Db.getCompletionCount, e.completed), (Db.getPeersCount, e.peers)]

/-- Each statement that counts steps to a row, where it gets to be stepped. -/
def CountsRow (hash : Bytes) (e : ScrapeEnv) (db : Db) : Prop :=
  ∀ q ∈ e.counts, q.2.ready 1 = true → stepCode (q.1 db (getTorrentId db hash e.torrent)) q.2 = sqliteRow

/-- A scrape for this hash: unless the lookup steps to a row the scrape is refused, and so it is unless each count that is reached
steps to a row. A scrape that is refused reads no count. -/
def ScrapeSafe (hash : Bytes) (e : ScrapeEnv) (db : Db) : Prop :=
  (e.torrent.ready 1 = true → stepCode (db.queryTorrentId hash) e.torrent ≠ sqliteRow → Refuses db (scrape (some hash) e db)) ∧
  (¬LookupEnds db hash e.torrent → ¬CountsRow hash e db → Refuses db (scrape (some hash) e db))

namespace StepCodesAux

/-- A lookup that does not step to a row ends the request where its code is caught. -/
theorem lookupEnds_iff_caught {db : Db} {hash : Bytes} {e : StmtEnv} (hr : e.ready 1 = true)
    (hc : stepCode (db.queryTorrentId hash) e ≠ sqliteRow) :
    LookupEnds db hash e ↔ CaughtCode (stepCode (db.queryTorrentId hash) e) := by
  unfold LookupEnds CaughtCode
  unfold stepCode at hc ⊢
  rw [hr]
  cases hs : e.step with
  | runs =>
    cases hq : db.queryTorrentId hash with
    | none => simp
    | some id => simp [hs, hq] at hc
  | fails c =>
    have hdone : c.1 ≠ sqliteDone := c.2.2.2.1
    simp [hdone]

/-- A code that is not caught is bound as the torrent id, once the peers query is prepared. -/
theorem boundId_eq_none_iff (hash : Bytes) (e : TrackEnv) (db : Db) :
    boundId hash e db = none ↔ LookupEnds db hash e.torrent ∨ e.prepare ≠ sqliteOk := by
  rw [RefusalsAux.lookupEnds_iff]
  simp only [boundId, or_assoc]
  split
  · rename_i h
    exact iff_of_true rfl h
  · rename_i h
    exact iff_of_false (by simp) h

end StepCodesAux

open StepCodesAux

/-- An announce meets a step that gave no row as it should exactly where the code is caught, or the peers query cannot be prepared. -/
theorem announceSafe_iff (inet : Inet) {ar ar' : AnnounceRequest} (hp : prepareData ar = some ar') (interval : Int) (e : TrackEnv)
    (db : Db) :
    AnnounceSafe inet ar (cstr ar'.infoHash) interval e db ↔
      (e.torrent.ready 1 = true → stepCode (db.queryTorrentId (cstr ar'.infoHash)) e.torrent ≠ sqliteRow →
        CaughtCode (stepCode (db.queryTorrentId (cstr ar'.infoHash)) e.torrent) ∨ e.prepare ≠ sqliteOk) := by
  obtain ⟨effects, ht, hrefuses⟩ := track_refuses_iff inet hp interval e db
  constructor
  · intro h hr hc
    have hb := (boundId_eq_none_iff _ e db).1 (h hr hc).1
    rwa [lookupEnds_iff_caught hr hc] at hb
  · intro h hr hc
    have hend := h hr hc
    rw [← lookupEnds_iff_caught hr hc] at hend
    refine ⟨(boundId_eq_none_iff _ e db).2 hend, effects, ht, hrefuses.2 ?_⟩
    rcases hend with hend | hend
    · exact Or.inl hend
    · exact Or.inr (Or.inl hend)

/-- A scrape does exactly where the lookup's code is caught, and each count that is reached steps to a row. -/
theorem scrapeSafe_iff (hash : Bytes) (e : ScrapeEnv) (db : Db) :
    ScrapeSafe hash e db ↔
      (e.torrent.ready 1 = true → stepCode (db.queryTorrentId hash) e.torrent ≠ sqliteRow →
        CaughtCode (stepCode (db.queryTorrentId hash) e.torrent)) ∧
      (LookupEnds db hash e.torrent ∨ CountsRow hash e db) := by
  simp only [ScrapeSafe, scrape_refuses_iff]
  constructor
  · rintro ⟨h1, h2⟩
    refine ⟨fun hr hc => (lookupEnds_iff_caught hr hc).1 (h1 hr hc), ?_⟩
    by_contra hn
    rw [not_or] at hn
    exact hn.1 (h2 hn.1 hn.2)
  · rintro ⟨h1, h2⟩
    refine ⟨fun hr hc => (lookupEnds_iff_caught hr hc).2 (h1 hr hc), ?_⟩
    intro hl hn
    rcases h2 with h2 | h2
    · exact h2
    · exact absurd h2 hn

/-- For every announce that `parseSocket` accepts and every scrape, whatever the tables and the results of the steps: what the switches
do not name is told apart from a torrent id or a count exactly under these conditions. -/
theorem stepCodes_iff (inet : Inet) (db : Db) :
    (∀ ar, Builds inet ar → ∃ ar', prepareData ar = some ar' ∧ ∀ interval e,
      (AnnounceSafe inet ar (cstr ar'.infoHash) interval e db ↔
        (e.torrent.ready 1 = true → stepCode (db.queryTorrentId (cstr ar'.infoHash)) e.torrent ≠ sqliteRow →
          CaughtCode (stepCode (db.queryTorrentId (cstr ar'.infoHash)) e.torrent) ∨ e.prepare ≠ sqliteOk))) ∧
    (∀ hash e,
      (ScrapeSafe hash e db ↔
        (e.torrent.ready 1 = true → stepCode (db.queryTorrentId hash) e.torrent ≠ sqliteRow →
          CaughtCode (stepCode (db.queryTorrentId hash) e.torrent)) ∧
        (LookupEnds db hash e.torrent ∨ CountsRow hash e db))) := by
  refine ⟨?_, fun hash e => scrapeSafe_iff hash e db⟩
  intro ar har
  obtain ⟨infoHash, hp⟩ := prepareData_built har.built
  exact ⟨_, hp, fun interval e => announceSafe_iff inet hp interval e db⟩

namespace StepCodesExample

def stack : Stack := { buf := Vector.replicate 1024 0, hashbuf := Vector.replicate 61 0 }

/-- The announce received. -/
def received : Bytes :=
  ascii "GET /announce?info_hash=aaaaaaaaaaaaaaaaaaaa&peer_id=-TC0010-000000000001&port=6881 HTTP/1.1"

/-- The announce request it makes when it comes from 10.0.0.1. -/
def announce : AnnounceRequest :=
  { infoHash := copyParam (ascii "aaaaaaaaaaaaaaaaaaaa"), peerId := copyParam (ascii "-TC0010-000000000001"),
    ip := ascii "10.0.0.1", port := 6881, protover := 4, event := .none, left := 0, compact := false, noPeerId := false,
    numwant := 50 }

theorem builds_announce : Builds PlainInet.inet announce :=
  ⟨stack, some received, some (.in4 #v[10, 0, 0, 1]), by decide +kernel⟩

def hash : Bytes := hexEncode (ascii "aaaaaaaaaaaaaaaaaaaa")

/-- Torrent 1 has this hash, torrent 10 another. -/
def db : Db := Db.ofTorrents [⟨1, hash, 0⟩, ⟨10, hexEncode (ascii "bbbbbbbbbbbbbbbbbbbb"), 0⟩] (by decide) (by decide)

/-- The step fails with this code. -/
def failing (c : ErrCode) : StmtEnv := { clock := some 0, prepare := sqliteOk, bind := fun _ => sqliteOk, step := .fails c }

/-- `SQLITE_BUSY`, which the switches name, and `SQLITE_IOERR`, which they do not. -/
def busy : ErrCode := ⟨5, by decide, by decide, by decide, by decide, by decide⟩

def ioerr : ErrCode := ⟨10, by decide, by decide, by decide, by decide, by decide⟩

/-- The lookup fails with this code, and everything else succeeds. -/
def env (c : ErrCode) : TrackEnv :=
  { torrent := failing c, prepare := sqliteOk, bind := sqliteOk, steps := [], first := .ok 100, again := .ok 100 }

end StepCodesExample

open StepCodesExample

/-- A lookup that is busy. -/
theorem stepCodes_iff_busy : ∃ hash, AnnounceSafe PlainInet.inet announce hash 300 (env busy) db := by
  obtain ⟨ar', -, h⟩ := (stepCodes_iff PlainInet.inet db).1 announce builds_announce
  exact ⟨_, (h 300 (env busy)).2 (fun _ _ => Or.inl (Or.inr (Or.inl rfl)))⟩

/-- After an I/O error in the lookup the announce is recorded for torrent 10. After one in the first count, a scrape of torrent 1
reports ten seeders. -/
theorem ioerr_used :
    (∃ ar', prepareData announce = some ar' ∧ ¬AnnounceSafe PlainInet.inet announce (cstr ar'.infoHash) 300 (env ioerr) db) ∧
    (track PlainInet.inet announce 300 (env ioerr) db).map (·.db.peers.map (·.torrent)) = some [10] ∧
    ¬ScrapeSafe hash { torrent := .ok 0, seeds := failing ioerr, completed := .ok 0, peers := .ok 0 } db ∧
    (scrape (some hash) { torrent := .ok 0, seeds := failing ioerr, completed := .ok 0, peers := .ok 0 } db).sent =
      sendHttpHeaders (ascii "200 OK") standardHeader ++
      [ascii "d5:files40:6161616161616161616161616161616161616161d8:completei10e10:downloadedi0e10:incompletei0eee"] := by
  refine ⟨?_, by decide, ?_, by decide⟩
  · obtain ⟨infoHash, hp⟩ := prepareData_built builds_announce.built
    refine ⟨_, hp, ?_⟩
    rw [announceSafe_iff PlainInet.inet hp]
    intro h
    have hcode : ∀ value, stepCode value (env ioerr).torrent = 10 := fun _ => rfl
    simp only [hcode] at h
    rcases h rfl (by decide) with hc | hc
    · revert hc
      unfold CaughtCode
      decide
    · exact hc rfl
  · rw [scrapeSafe_iff]
    rintro ⟨-, h⟩
    rcases h with h | h
    · revert h
      rw [RefusalsAux.lookupEnds_iff]
      decide
    · have hrow := h (Db.getSeedCount, failing ioerr) (List.mem_cons_self ..) rfl
      revert hrow
      decide

end Traccoon
