import Mathlib.Data.List.Basic
import Mathlib.Data.UInt

namespace RemoteVfs

abbrev Bytes := List UInt8

-- The bytes of a Rust string.
def text (value : String) : Bytes := value.toUTF8.data.toList

def zeros (size : Nat) : Bytes := List.replicate size 0

-- The messages of proto/sqlite_remote/v1/sqlite_remote.proto. Frames are values here:
-- their encoding is prost's.
namespace Pb

inductive ErrorCode where
  | Unspecified | Unauthenticated | Forbidden | NotFound | LeaseHeld | Fenced
  | VersionConflict | BadRequest | TooLarge | QuotaExceeded | RateLimited | Internal
  | AccessDenied | SlotTaken
  deriving DecidableEq, Repr

def ErrorCode.asStrName : ErrorCode → String
  | Unspecified => "ERROR_CODE_UNSPECIFIED"
  | Unauthenticated => "ERROR_CODE_UNAUTHENTICATED"
  | Forbidden => "ERROR_CODE_FORBIDDEN"
  | NotFound => "ERROR_CODE_NOT_FOUND"
  | LeaseHeld => "ERROR_CODE_LEASE_HELD"
  | Fenced => "ERROR_CODE_FENCED"
  | VersionConflict => "ERROR_CODE_VERSION_CONFLICT"
  | BadRequest => "ERROR_CODE_BAD_REQUEST"
  | TooLarge => "ERROR_CODE_TOO_LARGE"
  | QuotaExceeded => "ERROR_CODE_QUOTA_EXCEEDED"
  | RateLimited => "ERROR_CODE_RATE_LIMITED"
  | Internal => "ERROR_CODE_INTERNAL"
  | AccessDenied => "ERROR_CODE_ACCESS_DENIED"
  | SlotTaken => "ERROR_CODE_SLOT_TAKEN"

inductive SigAlg where
  | Unspecified | Ed25519
  deriving DecidableEq, Repr

def SigAlg.number : SigAlg → Nat
  | Unspecified => 0
  | Ed25519 => 1

structure Hello where
  protocolVersion : Nat
  instanceId : Bytes
  sigAlg : SigAlg
  publicKey : Bytes
  accessToken : String
  deriving DecidableEq, Repr

structure Proof where
  signature : Bytes
  deriving DecidableEq, Repr

structure Resume where
  leaseId : Bytes
  leaseEpoch : Nat
  knownVersion : Nat
  pendingCommitId : Bytes
  deriving DecidableEq, Repr

structure Open where
  dbId : String
  pageSize : Nat
  createIfMissing : Bool
  takeover : Bool
  resume : Option Resume
  deriving DecidableEq, Repr

structure Range where
  firstBlock : Nat
  count : Nat
  deriving DecidableEq, Repr

structure Fetch where
  dbId : String
  version : Nat
  firstBlock : Nat
  count : Nat
  ranges : List Range
  deriving DecidableEq, Repr

structure Changed where
  dbId : String
  fromVersion : Nat
  deriving DecidableEq, Repr

structure Block where
  index : Nat
  data : Bytes
  deriving DecidableEq, Repr

structure Commit where
  dbId : String
  commitId : Bytes
  leaseEpoch : Nat
  baseVersion : Nat
  pageCount : Nat
  blocks : List Block
  more : Bool
  part : Nat
  deriving DecidableEq, Repr

structure CloseDb where
  dbId : String
  leaseEpoch : Nat
  deriving DecidableEq, Repr

structure Delete where
  dbId : String
  takeover : Bool
  deriving DecidableEq, Repr

structure Ping where
  clientTimeMs : Nat
  deriving DecidableEq, Repr

structure SetSlotLabel where
  label : String
  deriving DecidableEq, Repr

inductive ClientBody where
  | Hello (hello : Hello)
  | Open (request : Open)
  | Fetch (fetch : Fetch)
  | Commit (part : Commit)
  | Ping (ping : Ping)
  | CloseDb (close : CloseDb)
  | Proof (proof : Proof)
  | Delete (delete : Delete)
  | Changed (changed : Changed)
  | ClaimSlot
  | DeleteSlot
  | SetSlotLabel (label : SetSlotLabel)
  deriving DecidableEq, Repr

structure ClientFrame where
  requestId : Nat
  body : ClientBody
  deriving DecidableEq, Repr

structure HelloOk where
  protocolVersion : Nat
  maxFrameBytes : Nat
  pingIntervalMs : Nat
  leaseTtlMs : Nat
  accessTokenTtlMs : Nat
  deriving DecidableEq, Repr

structure Challenge where
  nonce : Bytes
  serverId : String
  expiresAtMs : Nat
  deriving DecidableEq, Repr

structure Opened where
  leaseId : Bytes
  leaseEpoch : Nat
  version : Nat
  pageSize : Nat
  pageCount : Nat
  lastCommitId : Bytes
  deriving DecidableEq, Repr

structure Pages where
  firstBlock : Nat
  blocks : List Bytes
  last : Bool
  deriving DecidableEq, Repr

structure Changes where
  fromVersion : Nat
  toVersion : Nat
  blocks : List Nat
  complete : Bool
  deriving DecidableEq, Repr

structure CommitAck where
  commitId : Bytes
  version : Nat
  deriving DecidableEq, Repr

structure LeaseRevoked where
  dbId : String
  newLeaseEpoch : Nat
  deriving DecidableEq, Repr

structure Slot where
  label : String
  claimedAtMs : Nat
  replacedLabel : String
  deriving DecidableEq, Repr

structure Error where
  code : ErrorCode
  detail : String
  currentVersion : Nat
  leaseHolderSinceMs : Nat
  deriving DecidableEq, Repr

-- prost's default message.
def Error.default : Error := ⟨.Unspecified, "", 0, 0⟩

inductive ServerBody where
  | HelloOk (ok : HelloOk)
  | Opened (opened : Opened)
  | Pages (pages : Pages)
  | CommitAck (ack : CommitAck)
  | Pong (clientTimeMs : Nat)
  | LeaseRevoked (revoked : LeaseRevoked)
  | Error (error : Error)
  | Ok
  | Challenge (challenge : Challenge)
  | Changes (changes : Changes)
  | Slot (slot : Slot)
  deriving DecidableEq, Repr

-- A frame without a body decodes to `none`.
structure ServerFrame where
  requestId : Nat
  body : Option ServerBody
  deriving DecidableEq, Repr

end Pb

end RemoteVfs
