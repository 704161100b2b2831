import DistributedMQ.Raft.Types

/-!
# Persistence (`raft.go` lines 67–109 and 744–890)

`saveState` rewrites the state file and then appends the new part of the log to
the log file; `loadState` reads both back when `NewRaftNode` builds a node.
File writes succeed and are atomic. With an empty `dataDir` nothing is written
or read.
-/

namespace DistributedMQ.Raft

variable [GrowthPolicy]

namespace RaftNode

/-- Append the entries behind `persistedIndex` to the log file. -/
def appendLogEntries (r : RaftNode) : RaftNode :=
  if r.dataDir = "" then r
  else
    let old := (r.disk.logFile.map GobBytes.values).getD []
    { r with
      disk := { r.disk with
        logFile := some ⟨old ++ r.log.elems.drop (r.persistedIndex + 1)⟩ }
      persistedIndex := r.lastIndex }

/-- The record `saveState` writes: it holds `persistedIndex` as it is *before*
the log entries are appended. -/
def savedState (r : RaftNode) : SavedState where
  currentTerm := r.currentTerm
  votedFor := r.votedFor
  commitIndex := r.commitIndex
  lastApplied := r.lastApplied
  logLength := r.log.len
  configState := r.configState
  currentConfig := r.currentConfig
  newConfig := r.newConfig
  persistedIndex := r.persistedIndex

def saveState (r : RaftNode) : RaftNode :=
  if r.dataDir = "" then r
  else appendLogEntries { r with disk := { r.disk with stateFile := some r.savedState } }

/-- Read the whole log file behind the sentinel. The expected length is passed
in and not used, as in the source. -/
def loadLogEntries (r : RaftNode) (_expectedLength : ℕ) : RaftNode :=
  match r.disk.logFile with
  | none => r
  | some bytes =>
    if bytes.values = [] then r
    else { r with log := (r.log.trunc 1).appendAll bytes.values }

def loadState (r : RaftNode) : RaftNode :=
  if r.dataDir = "" then r
  else
    match r.disk.stateFile with
    | none => r
    | some st =>
      loadLogEntries
        { r with
          currentTerm := st.currentTerm
          votedFor := st.votedFor
          commitIndex := st.commitIndex
          lastApplied := st.lastApplied
          configState := st.configState
          currentConfig := st.currentConfig
          newConfig := st.newConfig
          persistedIndex := st.persistedIndex }
        st.logLength

end RaftNode

/-- Enter the peer list into the membership maps, leaving out the node itself. -/
def addPeers (selfAddr : String) (r : RaftNode) : List String → RaftNode
  | [] => r
  | addr :: rest =>
    if addr = selfAddr then addPeers selfAddr r rest
    else
      addPeers selfAddr
        { r with
          peers := r.peers.insert addr { addr }
          currentConfig := r.currentConfig.insert addr true
          isr := r.isr.insert addr true }
        rest

/-- The node `NewRaftNode` builds before it reads the disk. -/
def blankNode (selfAddr : String) (dataDir : String) (disk : Disk) : RaftNode where
  state := .follower
  currentTerm := 0
  votedFor := ""
  log := .ofList [sentinel]
  commitIndex := 0
  lastApplied := 0
  nextIndex := ∅
  matchIndex := ∅
  peers := ∅
  selfAddr := selfAddr
  applyCh := some []
  dataDir := dataDir
  pendingCommit := ∅
  isr := ∅
  maxLag := 10000
  currentConfig := (∅ : GoMap String Bool).insert selfAddr true
  newConfig := none
  configState := .stable
  persistedIndex := 0
  disk := disk
  chansMade := 0
  chansClosed := []

/-- `NewRaftNode`, with a fresh `applyCh`. -/
def newRaftNode (selfAddr : String) (peers : List String) (dataDir : String)
    (disk : Disk) : RaftNode :=
  (addPeers selfAddr (blankNode selfAddr dataDir disk) peers).loadState

end DistributedMQ.Raft
