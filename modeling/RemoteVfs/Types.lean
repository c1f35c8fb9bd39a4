import RemoteVfs.Wire

namespace RemoteVfs

-- Why a database can no longer be used.
inductive Broken where
  | Fenced
  | Uncertain (reason : String)
  | Diverged (reason : String)
  | Refused (reason : String)
  | Denied (reason : String)
  | Full (reason : String)
  | Plaintext
  deriving DecidableEq, Repr

-- The counters of a registered VFS. Durations are in milliseconds.
structure Stats where
  commits : Nat := 0
  commitFrames : Nat := 0
  committedBlocks : Nat := 0
  committedBytes : Nat := 0
  commitTime : Nat := 0
  maxCommitTime : Nat := 0
  fetches : Nat := 0
  fetchedBlocks : Nat := 0
  fetchTime : Nat := 0
  reconnects : Nat := 0
  localWrites : Nat := 0
  localBlocksWritten : Nat := 0
  localReads : Nat := 0
  localBlocksRead : Nat := 0
  localMisses : Nat := 0
  localFailures : Nat := 0
  caughtUp : Nat := 0
  forgottenBlocks : Nat := 0
  evictedBlocks : Nat := 0
  heldBlocks : Nat := 0
  recoveredCommits : Nat := 0
  resentCommits : Nat := 0
  healed : Nat := 0
  deriving DecidableEq, Repr

end RemoteVfs
