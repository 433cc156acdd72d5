import Traccoon.Lemmas.Rows
import Traccoon.Service
import Traccoon.Theorems.Stopped

/-!
# Whom a reply lists

The worker threads share the tables and nothing else. A reply lists rows of the torrent that was asked for, and a row says what one
announce for that torrent has said: so whatever else is served at the same time, a peer is handed out to those only that ask for a hash
that it has itself announced (`reply_lists_announced`).
-/

namespace Traccoon

open CString

/-- A failed step of this statement has one of the codes that the switches name. -/
def StmtEnv.Named (e : StmtEnv) : Prop := ∀ c, e.step = .fails c → c.1 = sqliteBusy ∨ c.1 = sqliteError

/-- The hash text that an announce makes `track` look up. -/
def hashText (ar : AnnounceRequest) : Option Bytes := (prepareData ar).map fun ar => cstr ar.infoHash

/-- This hash is registered under this torrent id, as it is read into an `int`. -/
def Registered (db : Db) (hash : Bytes) (torrentid : Int) : Prop := ∃ id, db.queryTorrentId hash = some id ∧ torrentid = int32 id

/-- The ids of the torrents fit into an `int`. -/
def Db.IdsFit (db : Db) : Prop := ∀ t ∈ db.torrents, IsInt32 t.id

variable {ι : Type}

/-- The columns of a row under this torrent id come from the table as it was at the start, or from an announce for a hash that was
registered under it. -/
def Known (db : Db) (tasks : ι → Task) (torrentid : Int) (r : PeerRow) : Prop :=
  (∃ row ∈ db.peers, row.torrent = torrentid ∧ row.listed = r) ∨
  ∃ j ar hash, tasks j = .announce ar ∧ hashText ar = some hash ∧ Registered db hash torrentid ∧ r = ar.stored

/-- The answers of SQLite to a job's step: a lookup of a torrent id fails with a code that is named, and the query for the peers gives
rows of the torrent. -/
def JobAnswered (db : Db) (job : Job) (e : JobEnv) : Prop :=
  match job.pc with
  | .track _ | .scrape _ => e.stmt.Named
  | .peers _ torrentid => PeerAnswers db torrentid e.steps
  | _ => True

/-- The same for a step of the service. -/
def Answered (s : Service ι) : ServiceAction ι → Prop
  | .job i e => JobAnswered s.db (s.jobs i) e
  | .prune _ _ => True

/-- What has been sent for an announce that was refused. -/
def Refused (sent : List Bytes) : Prop :=
  ∃ reason ∈ [hashNotRecognized, databaseErrorTid, serverError], sent = successHeaders ++ sendString reason

section

variable (inet : Inet) (interval : Int) (db : Db) (tasks : ι → Task)

/-- What has been sent for an announce that was answered with peers, each of which is known under the torrent id. -/
def SentKnown (ar : AnnounceRequest) (sent : List Bytes) : Prop :=
  ∃ ar' torrentid steps, prepareData ar = some ar' ∧ Registered db (cstr ar'.infoHash) torrentid ∧
    (∀ r, .row r ∈ steps → Known db tasks torrentid r) ∧ sent = successHeaders ++ peerReply inet ar' interval steps

/-- How far a job may have come with its request, and what has been sent for it by then. -/
inductive JobHonest : Task → Job → Prop where
  | asked (task : Task) : JobHonest task task.job
  | peers {ar ar' : AnnounceRequest} {torrentid : Int} (hp : prepareData ar = some ar')
      (hr : Registered db (cstr ar'.infoHash) torrentid) : JobHonest (.announce ar) { pc := .peers ar' torrentid, sent := successHeaders }
  | update {ar ar' : AnnounceRequest} {torrentid : Int} {pc : UpdatePc} {sent : List Bytes} (hp : prepareData ar = some ar')
      (hr : Registered db (cstr ar'.infoHash) torrentid) (hs : SentKnown inet interval db tasks ar sent) :
      JobHonest (.announce ar) { pc := .update ar' torrentid pc, sent := sent }
  | refused {ar : AnnounceRequest} {sent : List Bytes} (h : Refused sent) : JobHonest (.announce ar) { pc := .returned, sent := sent }
  | listed {ar : AnnounceRequest} {sent : List Bytes} (h : SentKnown inet interval db tasks ar sent) :
      JobHonest (.announce ar) { pc := .returned, sent := sent }
  | counts {hash : Option Bytes} {text : Bytes} {torrent : Int} {a b c : Option Int} {sent : List Bytes} :
      JobHonest (.scrape hash) { pc := .counts text torrent a b c, sent := sent }
  | counted {hash : Option Bytes} {sent : List Bytes} : JobHonest (.scrape hash) { pc := .returned, sent := sent }

/-- What holds in every state of a run: the torrents are registered as they were, every row is known under its torrent id, and every job
is where its request may have led it. -/
structure Service.Honest (s : Service ι) : Prop where
  torrents : s.db.torrents.map (fun t => (t.hash, t.id)) = db.torrents.map (fun t => (t.hash, t.id))
  rows : ∀ row ∈ s.db.peers, Known db tasks row.torrent row.listed
  jobs : ∀ i, JobHonest inet interval db tasks (tasks i) (s.jobs i)

end

namespace ProvenanceAux

/-! ## The registered torrents -/

theorem queryTorrentId_congr {db db' : Db}
    (h : db'.torrents.map (fun t => (t.hash, t.id)) = db.torrents.map (fun t => (t.hash, t.id))) (hash : Bytes) :
    db'.queryTorrentId hash = db.queryTorrentId hash := by
  have hpairs : ∀ ts : List Torrent, (ts.find? (fun t => t.hash == hash)).map (·.id) =
      ((ts.map fun t => (t.hash, t.id)).find? (fun p => p.1 == hash)).map Prod.snd := by
    intro ts
    rw [List.find?_map, Option.map_map]
    rfl
  rw [Db.queryTorrentId, Db.queryTorrentId, hpairs, hpairs, h]

/-- A lookup with named codes finds the torrent's id, or one of the two values that end the request. -/
theorem getTorrentId_named {db : Db} {hash : Bytes} {e : StmtEnv} (h : e.Named) :
    getTorrentId db hash e = dbNosuchhash ∨ getTorrentId db hash e = dbFailed ∨ Registered db hash (getTorrentId db hash e) := by
  unfold getTorrentId querySingleInt
  split
  · cases hs : e.step with
    | runs =>
      cases hq : db.queryTorrentId hash with
      | none => exact Or.inl rfl
      | some id => exact Or.inr (Or.inr ⟨id, hq, rfl⟩)
    | fails c => exact Or.inr (Or.inl (if_pos (h c hs)))
  · exact Or.inr (Or.inl rfl)

/-- No two hashes are registered under one torrent id. -/
theorem registered_unique {db : Db} (hids : db.IdsFit) {hash hash' : Bytes} {torrentid : Int} (h : Registered db hash torrentid)
    (h' : Registered db hash' torrentid) : hash = hash' := by
  have hfound : ∀ {hash : Bytes} {id : Int}, db.queryTorrentId hash = some id → ∃ t ∈ db.torrents, t.hash = hash ∧ t.id = id := by
    intro hash id hq
    obtain ⟨t, ht, hid⟩ := Option.map_eq_some_iff.1 hq
    exact ⟨t, List.mem_of_find?_eq_some ht, by simpa using List.find?_some ht, hid⟩
  obtain ⟨id, hq, hid⟩ := h
  obtain ⟨id', hq', hid'⟩ := h'
  obtain ⟨t, ht, rfl, rfl⟩ := hfound hq
  obtain ⟨t', ht', rfl, rfl⟩ := hfound hq'
  rw [int32_of_isInt32 (hids t ht)] at hid
  rw [int32_of_isInt32 (hids t' ht')] at hid'
  rw [List.inj_on_of_nodup_map db.torrentIds ht ht' (hid.symm.trans hid')]

/-! ## A step of a job -/

section

variable {inet : Inet} {interval : Int} {db₀ db : Db} {tasks : ι → Task}

/-- A step of a job that counts takes a count or sends them. -/
theorem jobStep_counts (text : Bytes) (torrent : Int) (a b c : Option Int) (sent : List Bytes) (e : JobEnv) :
    ∃ job, jobStep inet interval db { pc := .counts text torrent a b c, sent := sent } e = some (db, job) ∧
      ((∃ a' b' c', job = { pc := .counts text torrent a' b' c', sent := sent }) ∨ ∃ sent', job = { pc := .returned, sent := sent' }) := by
  by_cases hall : ∃ x y z, a = some x ∧ b = some y ∧ c = some z
  · obtain ⟨x, y, z, rfl, rfl, rfl⟩ := hall
    exact ⟨_, rfl, Or.inr ⟨_, rfl⟩⟩
  · have htakes : ∃ a' b' c', jobStep inet interval db { pc := .counts text torrent a b c, sent := sent } e =
        some (db, { pc := .counts text torrent a' b' c', sent := sent }) := by
      cases hcount : e.count with
      | seeds =>
        refine ⟨a <|> some (queryTorrentParam db Db.getSeedCount torrent e.stmt), b, c, ?_⟩
        cases a <;> cases b <;> cases c <;> first | exact absurd ⟨_, _, _, rfl, rfl, rfl⟩ hall | simp only [jobStep, hcount]
      | completed =>
        refine ⟨a, b <|> some (queryTorrentParam db Db.getCompletionCount torrent e.stmt), c, ?_⟩
        cases a <;> cases b <;> cases c <;> first | exact absurd ⟨_, _, _, rfl, rfl, rfl⟩ hall | simp only [jobStep, hcount]
      | peers =>
        refine ⟨a, b, c <|> some (queryTorrentParam db Db.getPeersCount torrent e.stmt), ?_⟩
        cases a <;> cases b <;> cases c <;> first | exact absurd ⟨_, _, _, rfl, rfl, rfl⟩ hall | simp only [jobStep, hcount]
    obtain ⟨a', b', c', hstep⟩ := htakes
    exact ⟨_, hstep, Or.inl ⟨a', b', c', rfl⟩⟩

/-- The lookup of a torrent id, for a job that goes on where it is found. -/
theorem registered_of_goes_on (htorrents : db.torrents.map (fun t => (t.hash, t.id)) = db₀.torrents.map (fun t => (t.hash, t.id)))
    {hash : Bytes} {e : StmtEnv} (he : e.Named) (h1 : getTorrentId db hash e ≠ dbNosuchhash) (h2 : getTorrentId db hash e ≠ dbFailed) :
    Registered db₀ hash (getTorrentId db hash e) := by
  rcases @getTorrentId_named db hash _ he with h | h | ⟨id, hq, hid⟩
  · exact absurd h h1
  · exact absurd h h2
  · exact ⟨id, (queryTorrentId_congr htorrents hash) ▸ hq, hid⟩

/-- What has been found out about an announce is what its row will say. -/
theorem known_of_announce {j : ι} {ar ar' : AnnounceRequest} {torrentid : Int} (ht : tasks j = .announce ar)
    (hp : prepareData ar = some ar') (hr : Registered db₀ (cstr ar'.infoHash) torrentid) :
    Known db₀ tasks torrentid { peerId := ar'.peerIdText, ip := ar'.ip, port := ar'.port, protover := ar'.protover } := by
  refine Or.inr ⟨j, ar, cstr ar'.infoHash, ht, by rw [hashText, hp, Option.map_some], hr, ?_⟩
  obtain ⟨x, -, hx⟩ := Option.bind_eq_some_iff.1 hp
  obtain rfl := Option.some.inj hx
  rfl

/-- A step of a job keeps what holds in every state. -/
theorem jobStep_honest {i : ι} {job job' : Job} {db' : Db} {e : JobEnv}
    (htorrents : db.torrents.map (fun t => (t.hash, t.id)) = db₀.torrents.map (fun t => (t.hash, t.id)))
    (hrows : ∀ row ∈ db.peers, Known db₀ tasks row.torrent row.listed) (hjob : JobHonest inet interval db₀ tasks (tasks i) job)
    (he : JobAnswered db job e) (h : jobStep inet interval db job e = some (db', job')) :
    db'.torrents.map (fun t => (t.hash, t.id)) = db₀.torrents.map (fun t => (t.hash, t.id)) ∧
    (∀ row ∈ db'.peers, Known db₀ tasks row.torrent row.listed) ∧ JobHonest inet interval db₀ tasks (tasks i) job' := by
  generalize ht : tasks i = task at hjob ⊢
  cases hjob with
  | asked =>
    cases task with
    | announce ar =>
      obtain ⟨ar', hp, h⟩ := Option.bind_eq_some_iff.1 h
      simp only at h
      split at h
      · obtain ⟨rfl, rfl⟩ := Prod.mk.inj (Option.some.inj h)
        exact ⟨htorrents, hrows, .refused ⟨_, by simp, rfl⟩⟩
      · rename_i h1
        split at h
        · obtain ⟨rfl, rfl⟩ := Prod.mk.inj (Option.some.inj h)
          exact ⟨htorrents, hrows, .refused ⟨_, by simp, rfl⟩⟩
        · rename_i h2
          obtain ⟨rfl, rfl⟩ := Prod.mk.inj (Option.some.inj h)
          exact ⟨htorrents, hrows, .peers hp (registered_of_goes_on htorrents he h1 h2)⟩
    | scrape hash =>
      cases hash with
      | none =>
        obtain ⟨rfl, rfl⟩ := Prod.mk.inj (Option.some.inj h)
        exact ⟨htorrents, hrows, .counted⟩
      | some hash =>
        simp only [jobStep, Task.job] at h
        split at h
        · obtain ⟨rfl, rfl⟩ := Prod.mk.inj (Option.some.inj h)
          exact ⟨htorrents, hrows, .counted⟩
        · split at h
          · obtain ⟨rfl, rfl⟩ := Prod.mk.inj (Option.some.inj h)
            exact ⟨htorrents, hrows, .counted⟩
          · obtain ⟨rfl, rfl⟩ := Prod.mk.inj (Option.some.inj h)
            exact ⟨htorrents, hrows, .counts⟩
  | @peers ar ar' torrentid hp hr =>
    simp only [jobStep] at h
    split at h
    · obtain ⟨rfl, rfl⟩ := Prod.mk.inj (Option.some.inj h)
      exact ⟨htorrents, hrows, .refused ⟨_, by simp, rfl⟩⟩
    · split at h
      · obtain ⟨rfl, rfl⟩ := Prod.mk.inj (Option.some.inj h)
        exact ⟨htorrents, hrows, .refused ⟨_, by simp, rfl⟩⟩
      · obtain ⟨rfl, rfl⟩ := Prod.mk.inj (Option.some.inj h)
        refine ⟨htorrents, hrows, .update hp hr ⟨ar', torrentid, e.steps, hp, hr, fun r hmem => ?_, rfl⟩⟩
        obtain ⟨row, hrow, rfl⟩ := StoppedAux.mem_answers he hmem
        obtain ⟨hrow, htorrent⟩ := List.mem_filter.1 hrow
        have hknown := hrows row hrow
        rwa [show row.torrent = torrentid by simpa using htorrent] at hknown
  | @update ar ar' torrentid pc sent hp hr hs =>
    have hafter : ∀ pc', JobHonest inet interval db₀ tasks (.announce ar) { pc := .afterUpdate ar' torrentid pc', sent := sent } := by
      intro pc'
      cases pc' with
      | returned error => exact .listed hs
      | queryPeer => exact .update hp hr hs
      | addPeer => exact .update hp hr hs
      | modifyPeer peerRow => exact .update hp hr hs
      | updateTorrent => exact .update hp hr hs
    obtain ⟨rfl, rfl⟩ := Prod.mk.inj (Option.some.inj h)
    refine ⟨(updatePeerStep_registry ..).trans htorrents, ?_, hafter _⟩
    intro row hrow
    rcases updatePeerStep_from torrentid ar' db pc e.stmt row hrow with ⟨row', hrow', hbecomes⟩ | ⟨htorrent, hlisted, -⟩
    · rw [hbecomes.torrent, hbecomes.listed]
      exact hrows row' hrow'
    · rw [htorrent, hlisted]
      exact known_of_announce ht hp hr
  | refused hsent =>
    obtain ⟨rfl, rfl⟩ := Prod.mk.inj (Option.some.inj h)
    exact ⟨htorrents, hrows, .refused hsent⟩
  | listed hsent =>
    obtain ⟨rfl, rfl⟩ := Prod.mk.inj (Option.some.inj h)
    exact ⟨htorrents, hrows, .listed hsent⟩
  | @counts hash text torrent a b c sent =>
    obtain ⟨job, hj, hcases⟩ := @jobStep_counts inet interval db text torrent a b c sent e
    rw [hj] at h
    obtain ⟨rfl, rfl⟩ := Prod.mk.inj (Option.some.inj h)
    rcases hcases with ⟨a', b', c', rfl⟩ | ⟨sent', rfl⟩
    · exact ⟨htorrents, hrows, .counts⟩
    · exact ⟨htorrents, hrows, .counted⟩
  | counted =>
    obtain ⟨rfl, rfl⟩ := Prod.mk.inj (Option.some.inj h)
    exact ⟨htorrents, hrows, .counted⟩

/-- So does a step of the service. -/
theorem honest_step [DecidableEq ι] {s t : Service ι} {a : ServiceAction ι} (h : s.Honest inet interval db₀ tasks) (ha : Answered s a)
    (ht : s.step inet interval a = some t) : t.Honest inet interval db₀ tasks := by
  cases a with
  | prune expireInterval e =>
    obtain rfl := Option.some.inj ht
    refine { torrents := ?_, rows := fun row hrow => h.rows row ((prunePeers_sublist _ _ _).subset hrow), jobs := h.jobs }
    rcases prunePeers_cases s.db expireInterval e with ⟨now, -, hp⟩ | ⟨-, hp⟩
    · simp only [hp]
      exact h.torrents
    · simp only [hp]
      exact h.torrents
  | job i e =>
    obtain ⟨⟨db', job'⟩, hj, ht⟩ := Option.bind_eq_some_iff.1 ht
    obtain rfl := Option.some.inj ht
    obtain ⟨htorrents, hrows, hjob⟩ := jobStep_honest h.torrents h.rows (h.jobs i) ha hj
    refine { torrents := htorrents, rows := hrows, jobs := fun k => ?_ }
    by_cases hk : k = i
    · subst hk
      simpa only [Function.update_self] using hjob
    · simpa only [Function.update_of_ne hk] using h.jobs k

theorem honest_start (db₀ : Db) (tasks : ι → Task) : (Service.start db₀ tasks).Honest inet interval db₀ tasks :=
  { torrents := rfl
    rows := fun row hrow => Or.inl ⟨row, hrow, rfl, rfl⟩
    jobs := fun i => .asked (tasks i) }

end

end ProvenanceAux

open ProvenanceAux

/-- For every set of announces and scrapes and every interleaving of their statements, any of which may fail, the lookup of a torrent id
with `SQLITE_BUSY` or `SQLITE_ERROR`, from tables whose torrent ids fit an `int` and whose rows have been stored by announces: an announce
that has been answered was refused, or was sent one dictionary that lists at most as many peers as it asked for. It lists no peer that is
the requester, and each one that it lists has itself announced the same hash, or was in the table under that hash at the start. -/
theorem reply_lists_announced [DecidableEq ι] (inet : Inet) (hi : inet.Lawful) (interval : Int) (h32 : IsInt32 interval)
    (tasks : ι → Task) (hbuilt : ∀ i ar, tasks i = .announce ar → Builds inet ar) (db : Db) (hids : db.IdsFit)
    (hstored : ∀ row ∈ db.peers, StoredRow inet row.listed) (schedule : List (ServiceAction ι)) (s : Service ι)
    (hanswered : Machine.Each (Machine.lift (Service.step inet interval)) (fun o a => ∀ u, o = some u → Answered u a)
      (some (Service.start db tasks)) schedule)
    (h : Machine.Reaches (Service.step inet interval) (Service.start db tasks) schedule s) :
    ∀ i ar, tasks i = .announce ar → (s.jobs i).pc = .returned →
      Refused (s.jobs i).sent ∨
      ∃ pieces rows hash torrentid, (s.jobs i).sent = successHeaders ++ pieces ∧
        pieces.flatten = (replyValue inet interval ar rows).encode ∧ hashText ar = some hash ∧ Registered db hash torrentid ∧
        (rows.length : Int) ≤ ar.numwant ∧
        ∀ r ∈ rows, isRequester ar r = false ∧
          ((∃ row ∈ db.peers, row.torrent = torrentid ∧ row.listed = r) ∨
            ∃ j ar', tasks j = .announce ar' ∧ hashText ar' = some hash ∧ r = ar'.stored) := by
  have hs := h.invariant_of_each (Service.Honest inet interval db tasks) (fun _ _ _ hs ha ht => honest_step hs ha ht)
    (honest_start db tasks) hanswered
  intro i ar ht hpc
  have hjob := hs.jobs i
  rw [ht] at hjob
  generalize s.jobs i = job at hjob hpc
  cases hjob with
  | asked => cases hpc
  | peers hp hr => cases hpc
  | update hp hr hsent => cases hpc
  | refused hsent => exact Or.inl hsent
  | listed hsent =>
    right
    obtain ⟨ar', torrentid, steps, hp, hr, hknown, rfl⟩ := hsent
    have hb := (hbuilt i ar ht).built
    obtain ⟨hn1, hn2⟩ := hb.numwant
    -- the prepared request asks for the same peers
    have hreply : peerReply inet ar' interval steps = peerReply inet ar interval steps := by
      obtain ⟨infoHash, hp'⟩ := prepareData_built hb
      obtain ⟨hl, -, -⟩ := hb.address.text hi
      rw [hl] at hp'
      obtain rfl := Option.some.inj (hp.symm.trans hp')
      simp only [peerReply, peerLoop_infoHash]
    have hrows : ∀ r ∈ delivered ar steps, Known db tasks torrentid r := fun r hmem => hknown r (mem_delivered hmem)
    have hcolumns : ∀ r ∈ delivered ar steps, StoredColumns inet r := by
      intro r hmem
      refine StoredRow.columns hi ?_
      rcases hrows r hmem with ⟨row, hrow, -, rfl⟩ | ⟨j, arj, hash, htj, -, -, rfl⟩
      · exact hstored row hrow
      · exact ⟨arj, hbuilt j arj htj, rfl⟩
    refine ⟨peerReply inet ar interval steps, delivered ar steps, cstr ar'.infoHash, torrentid, by rw [hreply], ?_,
      by rw [hashText, hp, Option.map_some], hr, ?_, ?_⟩
    · cases hc : ar.compact with
      | true => exact peerReply_compact hi hc h32 steps (by omega) hn2 fun r hmem => (hcolumns r hmem).address
      | false => exact peerReply_plain hc h32 steps (by omega) hcolumns
    · have := length_delivered_le ar steps
      omega
    · intro r hmem
      refine ⟨by simpa using (List.mem_filter.1 hmem).2, ?_⟩
      rcases hrows r hmem with hrow | ⟨j, arj, hash, htj, hhash, hreg, rfl⟩
      · exact Or.inl hrow
      · rw [registered_unique hids hreg hr] at hhash
        exact Or.inr ⟨j, arj, htj, hhash, rfl⟩

namespace ProvenanceExample

open StoppedExample

/-- One torrent, and a peer that has announced it before. -/
def db : Db :=
  start.db.addTorrentPeer 1 (announce "1" "10.0.0.1" .started).peerIdText (ascii "10.0.0.1") 6881 100 4

/-- Two more peers announce it. -/
def tasks : Bool → Task
  | false => .announce (announce "2" "10.0.0.2" .started)
  | true => .announce (announce "3" "10.0.0.3" .started)

/-- Everything succeeds, and the peers query gives these rows. -/
def jobEnv (rows : List PeerRow) : JobEnv :=
  { stmt := .ok 100, prepare := sqliteOk, bind := sqliteOk, steps := rows.map .row, count := .seeds }

/-- The row of the second peer. -/
def row₂ : PeerRow := { peerId := ascii "-TC0010-000000000002", ip := ascii "10.0.0.2", port := 6881, protover := 4 }

/-- The steps of the two jobs in turns, with the rows that a query for the peers gives. The second job asks for the peers when the first
has stored its own. -/
def script : List (Bool × List PeerRow) :=
  [(false, []), (true, []), (false, [row]), (false, []), (false, []), (true, [row, row₂]), (false, []), (true, []), (false, []), (true, []),
   (true, []), (true, [])]

def schedule : List (ServiceAction Bool) := script.map fun p => .job p.1 (jobEnv p.2)

/-- The query for the peers, if it is the next step of this job, gives these rows. -/
def gives (o : Option (Service Bool)) (p : Bool × List PeerRow) : Bool :=
  o.all fun s =>
    match (s.jobs p.1).pc with
    | .peers _ torrentid => decide ((s.db.torrentPeers torrentid).map Peer.listed = p.2 ∧ p.2.length ≤ 50)
    | _ => true

theorem named (rows : List PeerRow) : (jobEnv rows).stmt.Named := fun c h => by cases h

theorem answered_of_gives {s : Service Bool} {p : Bool × List PeerRow} (h : gives (some s) p = true) :
    Answered s (.job p.1 (jobEnv p.2)) := by
  show JobAnswered s.db (s.jobs p.1) (jobEnv p.2)
  unfold JobAnswered
  split
  · exact named _
  · exact named _
  · rename_i hpc
    simp only [gives, Option.all_some, hpc, decide_eq_true_eq] at h
    exact ⟨p.2, h.1 ▸ List.Perm.refl _, Or.inl (by rw [List.take_of_length_le h.2]; rfl)⟩
  · trivial

theorem each_of_gives (ps : List (Bool × List PeerRow)) : ∀ o : Option (Service Bool),
    Machine.Each (fun o p => Machine.lift (Service.step PlainInet.inet 300) o (.job p.1 (jobEnv p.2))) (fun o p => gives o p = true) o ps →
    Machine.Each (Machine.lift (Service.step PlainInet.inet 300)) (fun o a => ∀ u, o = some u → Answered u a) o
      (ps.map fun p => .job p.1 (jobEnv p.2)) := by
  induction ps with
  | nil => exact fun _ _ => trivial
  | cons p ps ih =>
    rintro o ⟨h, hrest⟩
    exact ⟨fun u hu => answered_of_gives (hu ▸ h), ih _ hrest⟩

/-- Where the steps lead. -/
def reached : Option (Service Bool) := Machine.run (Machine.lift (Service.step PlainInet.inet 300)) (some (Service.start db tasks)) schedule

theorem reached_isSome : reached.isSome = true := by decide +kernel

/-- The last state of the run. -/
def last : Service Bool := reached.get reached_isSome

theorem last_reached : Machine.Reaches (Service.step PlainInet.inet 300) (Service.start db tasks) schedule last :=
  ⟨schedule, List.prefix_refl _, (Option.some_get reached_isSome).symm⟩

theorem builds_third : BuildsFrom PlainInet.inet (eventTarget "3" "started") (announce "3" "10.0.0.3" .started) :=
  ⟨stack, some (request "3" "started"), some (.in4 #v[10, 0, 0, 3]), ascii "HTTP/1.1", by decide +kernel, by decide +kernel,
    by decide +kernel⟩

theorem builds : ∀ i ar, tasks i = .announce ar → Builds PlainInet.inet ar := by
  intro i ar h
  cases i with
  | false =>
    obtain rfl := Task.announce.inj h
    exact builds_other.builds
  | true =>
    obtain rfl := Task.announce.inj h
    exact builds_third.builds

theorem stored : ∀ row ∈ db.peers, StoredRow PlainInet.inet row.listed := by
  intro row hrow
  obtain rfl := List.mem_singleton.1 hrow
  exact ⟨announce "1" "10.0.0.1" .started, builds_started.builds, by decide⟩

theorem idsFit : db.IdsFit := by
  intro t ht
  obtain rfl := List.mem_singleton.1 ht
  exact ⟨by decide, by decide⟩

end ProvenanceExample

open ProvenanceExample

/-- The third peer has been answered with a dictionary that lists someone: the peer that was there, or the one that has announced itself
in the meantime. -/
theorem reply_lists_announced_two :
    ¬Refused (last.jobs true).sent ∧
    ∃ pieces rows, (last.jobs true).sent = successHeaders ++ pieces ∧
      pieces.flatten = (replyValue PlainInet.inet 300 (StoppedExample.announce "3" "10.0.0.3" .started) rows).encode ∧ rows ≠ [] ∧
      ∀ r ∈ rows, (∃ row ∈ db.peers, row.listed = r) ∨ ∃ j ar, tasks j = .announce ar ∧ r = ar.stored := by
  have hrefused : ¬Refused (last.jobs true).sent := by
    rintro ⟨reason, hreason, hsent⟩
    have hlength : ((last.jobs true).sent).length = successHeaders.length + 4 := by decide +kernel
    rw [hsent, List.length_append] at hlength
    simp [sendString] at hlength
  refine ⟨hrefused, ?_⟩
  rcases reply_lists_announced PlainInet.inet PlainInet.lawful 300 ⟨by decide, by decide⟩ tasks builds db idsFit stored schedule last
    (each_of_gives script _ (by decide +kernel)) last_reached true _ rfl (by decide +kernel) with
    h | ⟨pieces, rows, hash, torrentid, hsent, hbody, -, -, -, hrows⟩
  · exact absurd h hrefused
  · refine ⟨pieces, rows, hsent, hbody, ?_, fun r hr => ?_⟩
    · rintro rfl
      have hpieces : pieces = (last.jobs true).sent.drop successHeaders.length := by rw [hsent, List.drop_left]
      rw [hpieces] at hbody
      revert hbody
      decide +kernel
    · rcases (hrows r hr).2 with ⟨row, hrow, -, hrowr⟩ | ⟨j, ar, ht, -, hstored⟩
      · exact Or.inl ⟨row, hrow, hrowr⟩
      · exact Or.inr ⟨j, ar, ht, hstored⟩

end Traccoon
