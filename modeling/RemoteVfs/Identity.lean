import RemoteVfs.Client
import RemoteVfs.Base.Prefixed

namespace RemoteVfs

open Base

def SUBJECT_LABEL : Bytes := text "sqlite-remote-subject-v1"

-- The bytes that the subject is a hash of.
def subjectTranscript (algorithm : Algorithm) (publicKey : Bytes) : Bytes :=
  transcript SUBJECT_LABEL "" [] [] algorithm publicKey

-- `digest` is the hash and its encoding as text.
def subjectOf (digest : Bytes → String) (algorithm : Algorithm) (publicKey : Bytes) : String :=
  digest (subjectTranscript algorithm publicKey)

namespace Identity

theorem length_bigEndian (value : Nat) : (bigEndian value).length = 4 := rfl

-- The value is put together again from its four bytes.
theorem bigEndian_inj {m n : Nat} (hm : m < 2 ^ 32) (hn : n < 2 ^ 32) (h : bigEndian m = bigEndian n) :
    m = n := by
  simp only [bigEndian, List.map_cons, List.map_nil, List.cons.injEq, and_true] at h
  obtain ⟨h₃, h₂, h₁, h₀⟩ := h
  have hbyte : ∀ shift, UInt8.ofNat (m >>> shift) = UInt8.ofNat (n >>> shift) →
      m / 2 ^ shift % 256 = n / 2 ^ shift % 256 := by
    intro shift heq
    have hnat := congrArg UInt8.toNat heq
    rwa [UInt8.toNat_ofNat', UInt8.toNat_ofNat', Nat.shiftRight_eq_div_pow,
      Nat.shiftRight_eq_div_pow] at hnat
  have hm₃ := hbyte 24 h₃
  have hm₂ := hbyte 16 h₂
  have hm₁ := hbyte 8 h₁
  have hm₀ := hbyte 0 h₀
  omega

theorem separates_bigEndian : Separates bigEndian 4 (2 ^ 32) where
  length := length_bigEndian
  pos := by decide
  inj _ _ hm hn h := bigEndian_inj hm hn h

-- What a transcript is made of.
structure Login where
  label : Bytes
  serverId : String
  nonce : Bytes
  instanceId : Bytes
  algorithm : Algorithm
  publicKey : Bytes
  deriving DecidableEq, Repr

def Login.transcript (login : Login) : Bytes :=
  RemoteVfs.transcript login.label login.serverId login.nonce login.instanceId login.algorithm
    login.publicKey

-- The length of each part fits its prefix.
structure Login.Short (login : Login) : Prop where
  label : login.label.length < 2 ^ 32
  serverId : login.serverId.utf8ByteSize < 2 ^ 32
  nonce : login.nonce.length < 2 ^ 32
  instanceId : login.instanceId.length < 2 ^ 32
  publicKey : login.publicKey.length < 2 ^ 32

def Login.parts (login : Login) : List Bytes :=
  [login.label, text login.serverId, login.nonce, login.instanceId,
    bigEndian (wireAlgorithm login.algorithm).number, login.publicKey]

theorem Login.transcript_eq (login : Login) : login.transcript = prefixed bigEndian login.parts := rfl

theorem Login.Short.parts {login : Login} (h : login.Short) :
    ∀ part ∈ login.parts, part.length < 2 ^ 32 := by
  intro part hpart
  simp only [Login.parts, List.mem_cons, List.not_mem_nil, or_false] at hpart
  rcases hpart with rfl | rfl | rfl | rfl | rfl | rfl
  · exact h.label
  · exact h.serverId
  · exact h.nonce
  · exact h.instanceId
  · rw [length_bigEndian]
    decide
  · exact h.publicKey

theorem Login.parts_inj {a b : Login} (h : a.parts = b.parts) : a = b := by
  simp only [Login.parts, List.cons.injEq, and_true] at h
  obtain ⟨hlabel, hserver, hnonce, hinstance, -, hkey⟩ := h
  have hbytes : a.serverId.toUTF8 = b.serverId.toUTF8 :=
    ByteArray.ext (Array.toList_inj.mp hserver)
  have hserverId : a.serverId = b.serverId := String.toByteArray_inj.mp hbytes
  obtain ⟨label, serverId, nonce, instanceId, algorithm, publicKey⟩ := a
  obtain ⟨label', serverId', nonce', instanceId', algorithm', publicKey'⟩ := b
  cases algorithm
  cases algorithm'
  dsimp only at hlabel hserverId hnonce hinstance hkey
  rw [hlabel, hserverId, hnonce, hinstance, hkey]

theorem take_transcript (login : Login) : login.transcript.take 4 = bigEndian login.label.length := by
  rw [Login.transcript_eq, Login.parts, prefixed_cons]
  exact List.take_left' (length_bigEndian _)

-- Transcripts are equal only if all their parts are. The labels of a login and of a subject have
-- different lengths, so these transcripts differ in their first bytes already.
theorem transcripts_are_unambiguous :
    (∀ a b : Login, a.Short → b.Short → a.transcript = b.transcript → a = b) ∧
    ∀ (serverId : String) (nonce instanceId : Bytes) (algorithm : Algorithm) (publicKey : Bytes)
      (subjectAlgorithm : Algorithm) (subjectKey : Bytes),
      loginTranscript serverId nonce instanceId algorithm publicKey ≠
        subjectTranscript subjectAlgorithm subjectKey := by
  refine ⟨fun a b ha hb h => ?_, ?_⟩
  · rw [Login.transcript_eq, Login.transcript_eq] at h
    exact Login.parts_inj (separates_bigEndian.prefixed_inj ha.parts hb.parts h)
  · intro serverId nonce instanceId algorithm publicKey subjectAlgorithm subjectKey h
    have hlogin := take_transcript ⟨TRANSCRIPT_LABEL, serverId, nonce, instanceId, algorithm, publicKey⟩
    have hsubject := take_transcript ⟨SUBJECT_LABEL, "", [], [], subjectAlgorithm, subjectKey⟩
    change (loginTranscript serverId nonce instanceId algorithm publicKey).take 4 = _ at hlogin
    change (subjectTranscript subjectAlgorithm subjectKey).take 4 = _ at hsubject
    rw [h, hsubject] at hlogin
    have hlabels : bigEndian SUBJECT_LABEL.length ≠ bigEndian TRANSCRIPT_LABEL.length := by decide
    exact hlabels hlogin

-- A byte is moved from the nonce to the server id.
theorem transcripts_are_unambiguous_shifted :
    let one : Login := ⟨TRANSCRIPT_LABEL, "wss://a.test", [98, 99], [105], .Ed25519, [107]⟩
    let other : Login := ⟨TRANSCRIPT_LABEL, "wss://a.testb", [99], [105], .Ed25519, [107]⟩
    one.Short ∧ other.Short ∧ one.transcript ≠ other.transcript := by
  intro one other
  have hone : one.Short := ⟨by decide, by decide, by decide, by decide, by decide⟩
  have hother : other.Short := ⟨by decide, by decide, by decide, by decide, by decide⟩
  refine ⟨hone, hother, fun h => ?_⟩
  have hsame := transcripts_are_unambiguous.1 one other hone hother h
  exact absurd (congrArg Login.nonce hsame) (by decide)

end Identity

end RemoteVfs
