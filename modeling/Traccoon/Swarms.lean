import Mathlib.Data.Set.Card
import Traccoon.Workers

/-!
# What the tracker is for

A tracker keeps swarms: for each torrent the peers that have announced it lately, and what others need to reach them. Peers join, tell how
much they have left, and expire. `Swarms` says that and no more; what the statements do to the tables is one of these events each
(`Tracker.event`).
-/

namespace Traccoon

open CString

/-- What is kept of a peer of a torrent. -/
structure Member where
  ip : Bytes
  port : Int
  protover : Int
  left : Int
  status : Option Int
  expires : Int
  deriving DecidableEq, Repr

/-- What is kept of each peer, by the torrent and the peer id. -/
abbrev Swarms := Int × Bytes → Option Member

/-- What can happen to swarms. -/
inductive SwarmEvent where
  | joins (k : Int × Bytes) (ip : Bytes) (port protover now : Int)
  | refreshes (k : Int × Bytes) (left status now : Int)
  | expires (cutoff : Int)
  | nothing
  deriving DecidableEq, Repr

namespace Swarms

/-- The swarms after an event. A peer that has not joined has nothing to refresh. -/
def after (σ : Swarms) : SwarmEvent → Swarms
  | .joins k ip port protover now =>
    Function.update σ k (some { ip := ip, port := port, protover := protover, left := 0, status := none, expires := now })
  | .refreshes k left status now =>
    Function.update σ k ((σ k).map fun m => { m with left := left, status := some status, expires := now })
  | .expires cutoff => fun k => (σ k).filter fun m => decide (cutoff ≤ m.expires)
  | .nothing => σ

/-- The peers of a torrent. -/
def members (σ : Swarms) (torrent : Int) : Set (Int × Bytes) := {k | k.1 = torrent ∧ ∃ m, σ k = some m}

/-- Those that have nothing left to download. -/
def seeds (σ : Swarms) (torrent : Int) : Set (Int × Bytes) := {k | k.1 = torrent ∧ ∃ m, σ k = some m ∧ m.left = 0}

/-- Those that have. -/
def leechers (σ : Swarms) (torrent : Int) : Set (Int × Bytes) := {k | k.1 = torrent ∧ ∃ m, σ k = some m ∧ m.left ≠ 0}

end Swarms

/-- What a row says of its peer. -/
def Peer.member (r : Peer) : Member :=
  { ip := r.ip, port := r.port, protover := r.protover, left := r.left, status := r.status, expires := r.expires }

/-- The swarms that the tables hold. -/
def Db.swarms (db : Db) : Swarms := fun k => (db.rowOf k).map Peer.member

variable {ι : Type}

/-- What a step is to the swarms: an insert that succeeds, an update that succeeds, or a prune that does. -/
def Tracker.event (calls : ι → Call) (s : Tracker ι) : Action ι → SwarmEvent
  | .call i e =>
    let ar := (calls i).ar
    match s.pc i, e.clock with
    | .addPeer, some now =>
      if (addPeer s.db ar (calls i).torrentid e).1 = 0 then .joins (calls i).key ar.ip ar.port ar.protover (int32 now) else .nothing
    | .modifyPeer peerRow, some now =>
      if (modifyPeer s.db ar peerRow e).1 = 0 then
        -- the row may have been pruned since it was found
        if ∃ r ∈ s.db.peers, r.id = peerRow then .refreshes (calls i).key ar.left ar.event.code (int32 now) else .nothing
      else .nothing
    | _, _ => .nothing
  | .prune expireInterval e =>
    match e.clock with
    | some now => if (prunePeers s.db expireInterval e).1 = 0 then .expires (int32 (now - expireInterval)) else .nothing
    | none => .nothing

end Traccoon
