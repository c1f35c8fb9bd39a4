import RemoteVfs.Wire
import RemoteVfs.Base.Protobuf

namespace RemoteVfs.Pb

open Base

def ErrorCode.number : ErrorCode → Nat
  | Unspecified => 0
  | Unauthenticated => 1
  | Forbidden => 2
  | NotFound => 3
  | LeaseHeld => 4
  | Fenced => 5
  | VersionConflict => 6
  | BadRequest => 7
  | TooLarge => 8
  | QuotaExceeded => 9
  | RateLimited => 10
  | Internal => 11
  | AccessDenied => 12
  | SlotTaken => 13

-- The fields of a message in the order of their numbers.
def Block.encode (block : Block) : Bytes := Field.uint 1 block.index ++ Field.bytes 2 block.data

def Commit.encode (commit : Commit) : Bytes :=
  Field.bytes 1 (text commit.dbId) ++ Field.bytes 2 commit.commitId ++
    Field.uint 3 commit.leaseEpoch ++ Field.uint 4 commit.baseVersion ++ Field.uint 5 commit.pageCount ++
    commit.blocks.flatMap (fun block => Field.message 6 block.encode) ++ Field.bool 7 commit.more ++
    Field.uint 8 commit.part

def Hello.encode (hello : Hello) : Bytes :=
  Field.uint 1 hello.protocolVersion ++ Field.bytes 2 hello.instanceId ++ Field.uint 3 hello.sigAlg.number ++
    Field.bytes 4 hello.publicKey ++ Field.bytes 5 (text hello.accessToken)

def Resume.encode (resume : Resume) : Bytes :=
  Field.bytes 1 resume.leaseId ++ Field.uint 2 resume.leaseEpoch ++ Field.uint 3 resume.knownVersion ++
    Field.bytes 4 resume.pendingCommitId

def Open.encode (request : Open) : Bytes :=
  Field.bytes 1 (text request.dbId) ++ Field.uint 2 request.pageSize ++
    Field.bool 3 request.createIfMissing ++ Field.bool 4 request.takeover ++
    (request.resume.elim [] fun resume => Field.message 5 resume.encode)

def Range.encode (range : Range) : Bytes := Field.uint 1 range.firstBlock ++ Field.uint 2 range.count

def Fetch.encode (fetch : Fetch) : Bytes :=
  Field.bytes 1 (text fetch.dbId) ++ Field.uint 2 fetch.version ++ Field.uint 3 fetch.firstBlock ++
    Field.uint 4 fetch.count ++ fetch.ranges.flatMap fun range => Field.message 5 range.encode

def CloseDb.encode (close : CloseDb) : Bytes :=
  Field.bytes 1 (text close.dbId) ++ Field.uint 2 close.leaseEpoch

def Delete.encode (delete : Delete) : Bytes :=
  Field.bytes 1 (text delete.dbId) ++ Field.bool 2 delete.takeover

def Changed.encode (changed : Changed) : Bytes :=
  Field.bytes 1 (text changed.dbId) ++ Field.uint 2 changed.fromVersion

def Ping.encode (ping : Ping) : Bytes := Field.uint 1 ping.clientTimeMs

-- The number of the field that carries the body, and the message in it.
def ClientBody.field : ClientBody → Nat × Bytes
  | Hello hello => (10, hello.encode)
  | Open request => (11, request.encode)
  | Fetch fetch => (12, fetch.encode)
  | Commit part => (13, part.encode)
  | Ping ping => (15, ping.encode)
  | CloseDb close => (16, close.encode)
  | Proof proof => (17, Field.bytes 1 proof.signature)
  | Delete delete => (18, delete.encode)
  | Changed changed => (19, changed.encode)
  | ClaimSlot => (20, [])
  | DeleteSlot => (21, [])
  | SetSlotLabel label => (22, Field.bytes 1 (text label.label))

def ClientFrame.encode (frame : ClientFrame) : Bytes :=
  Field.uint 1 frame.requestId ++ Field.message frame.body.field.1 frame.body.field.2

-- The `ClientFrame` that carries one part.
def Commit.frame (requestId : Nat) (commit : Commit) : Bytes :=
  ClientFrame.encode ⟨requestId, .Commit commit⟩

def HelloOk.encode (ok : HelloOk) : Bytes :=
  Field.uint 1 ok.protocolVersion ++ Field.uint 2 ok.maxFrameBytes ++ Field.uint 3 ok.pingIntervalMs ++
    Field.uint 4 ok.leaseTtlMs ++ Field.uint 5 ok.accessTokenTtlMs

def Opened.encode (opened : Opened) : Bytes :=
  Field.bytes 1 opened.leaseId ++ Field.uint 2 opened.leaseEpoch ++ Field.uint 3 opened.version ++
    Field.uint 4 opened.pageSize ++ Field.uint 5 opened.pageCount ++ Field.bytes 6 opened.lastCommitId

-- The elements of a repeated field are encoded also if they are empty.
def Pages.encode (pages : Pages) : Bytes :=
  Field.uint 1 pages.firstBlock ++ pages.blocks.flatMap (Field.message 2) ++ Field.bool 3 pages.last

-- Repeated numbers are packed into one field.
def Changes.encode (changes : Changes) : Bytes :=
  Field.uint 1 changes.fromVersion ++ Field.uint 2 changes.toVersion ++
    Field.bytes 3 (changes.blocks.flatMap varint) ++ Field.bool 4 changes.complete

def Error.encode (error : Error) : Bytes :=
  Field.uint 1 error.code.number ++ Field.bytes 2 (text error.detail) ++ Field.uint 3 error.currentVersion ++
    Field.uint 4 error.leaseHolderSinceMs

def Challenge.encode (challenge : Challenge) : Bytes :=
  Field.bytes 1 challenge.nonce ++ Field.bytes 2 (text challenge.serverId) ++
    Field.uint 3 challenge.expiresAtMs

def Slot.encode (slot : Slot) : Bytes :=
  Field.bytes 1 (text slot.label) ++ Field.uint 2 slot.claimedAtMs ++ Field.bytes 3 (text slot.replacedLabel)

def LeaseRevoked.encode (revoked : LeaseRevoked) : Bytes :=
  Field.bytes 1 (text revoked.dbId) ++ Field.uint 2 revoked.newLeaseEpoch

def ServerBody.field : ServerBody → Nat × Bytes
  | HelloOk ok => (10, ok.encode)
  | Opened opened => (11, opened.encode)
  | Pages pages => (12, pages.encode)
  | CommitAck ack => (13, Field.bytes 1 ack.commitId ++ Field.uint 2 ack.version)
  | Pong clientTimeMs => (14, Field.uint 1 clientTimeMs)
  | LeaseRevoked revoked => (15, revoked.encode)
  | Error error => (16, error.encode)
  | Ok => (17, [])
  | Challenge challenge => (18, challenge.encode)
  | Changes changes => (19, changes.encode)
  | Slot slot => (20, slot.encode)

def ServerFrame.encode (frame : ServerFrame) : Bytes :=
  Field.uint 1 frame.requestId ++ frame.body.elim [] fun body => Field.message body.field.1 body.field.2

end RemoteVfs.Pb
