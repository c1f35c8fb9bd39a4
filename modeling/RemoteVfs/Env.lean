import RemoteVfs.Types
import RemoteVfs.Base.Program

namespace RemoteVfs

open Base

-- Metadata record of a local copy: owner, database, page size, page count and the
-- version of the blocks it holds.
structure Head where
  subject : String
  dbId : String
  pageSize : Nat
  pageCount : Nat
  version : Nat
  deriving DecidableEq, Repr

-- Storage backend of a local copy. Its state is part of the world.
structure LocalStore (ω : Type) where
  head : Prog ω String (Option Head)
  read : Nat → Nat → Prog ω String (List Bytes)
  write : Head → List (Nat × Bytes) → Prog ω String Unit
  forget : Head → List Nat → Prog ω String Unit
  clear : Prog ω String Unit
  select : String → Prog ω String Unit
  flush : Prog ω String Unit

-- Everything outside the client: the transport to the server, the token source, the
-- clock, randomness and the store of the local copy. Times are in nanoseconds.
structure Env (ω : Type) where
  -- Bound for the loops that wait for the server.
  fuel : Nat
  native : Bool
  dial : Prog ω String Unit
  reopen : Prog ω String Unit
  send : Pb.ClientFrame → Prog ω String Unit
  -- A frame that does not decode gives the decoder's error.
  receive : Prog ω String (Except String Pb.ServerFrame)
  loggedIn : Nat → ω → ω
  reachable : ω → Bool × ω
  token : Prog ω String String
  now : ω → Nat × ω
  pause : Nat → ω → ω
  random : ω → Bytes × ω
  sign : Bytes → Bytes
  store : LocalStore ω
  -- Whether the thread that writes the local copy can be started, and how many of the
  -- queued jobs it has done by now.
  spawn : ω → Bool × ω
  progress : ω → Nat × ω
  -- The derived debug output of the generated message types.
  debug : Option Pb.ServerBody → String
  debugBroken : Broken → String

-- A call into the world that cannot fail.
def Env.ask {ω ε α : Type} (question : ω → α × ω) : Prog ω ε α := fun w =>
  (.ok (question w).1, (question w).2)

end RemoteVfs
