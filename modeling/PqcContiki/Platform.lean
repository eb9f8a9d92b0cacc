import PqcContiki.Fragmentation

/-!
What the program takes from outside: the Contiki clock, and the vendored HQC, SHAKE256 and
AES code behind `crypto_worker.c`.
-/
namespace PqcContiki

abbrev cwHqcPublicKeyLen : ℕ := 2249
abbrev cwHqcSecretKeyLen : ℕ := 2289
abbrev cwHqcCiphertextLen : ℕ := 4481
abbrev cwHqcSharedLen : ℕ := 64
abbrev cwAesKeyLen : ℕ := 32
abbrev cwAesIvLen : ℕ := 16

/-- A `uint8_t` array of `n` bytes. -/
@[ext] structure Buffer (n : ℕ) where
  get : Fin n → UInt8
deriving DecidableEq

def Buffer.zero (n : ℕ) : Buffer n := ⟨fun _ => 0⟩

def Buffer.toList {n : ℕ} (buf : Buffer n) : Bytes := List.ofFn buf.get

@[simp] theorem Buffer.length_toList {n : ℕ} (buf : Buffer n) : buf.toList.length = n := by
  simp [Buffer.toList]

attribute [irreducible] Buffer.toList

abbrev PublicKey := Buffer cwHqcPublicKeyLen
abbrev SecretKey := Buffer cwHqcSecretKeyLen
abbrev Ciphertext := Buffer cwHqcCiphertextLen
abbrev SharedSecret := Buffer cwHqcSharedLen
abbrev AesKey := Buffer cwAesKeyLen
abbrev AesIv := Buffer cwAesIvLen

/-- All the randomness one call of the KEM draws from its generator. -/
abbrev Entropy := ℕ

/-- The KEM functions return their C result code, 0 for success, and the arrays they write. -/
structure Platform where
  /-- `CLOCK_SECOND`, in ticks. -/
  clockSecond : ℕ
  /-- The width of `clock_time_t`. -/
  clockBits : ℕ
  cryptoKemKeypair : Entropy → ℤ × PublicKey × SecretKey
  cryptoKemEnc : Entropy → PublicKey → ℤ × Ciphertext × SharedSecret
  cryptoKemDec : SecretKey → Ciphertext → ℤ × SharedSecret
  shake256 : (outLen : ℕ) → Bytes → Buffer outLen
  /-- Byte `i` of the stream that AES in counter mode XORs onto its input. -/
  aesCtrKeystream : AesKey → AesIv → ℕ → UInt8

/-- The readings of `clock_time()` inside one handler, numbered in program order. -/
abbrev Clock := ℕ → ℕ

namespace Platform

variable (P : Platform)

/-- Addition of `clock_time_t` values. -/
def clockAdd (a b : ℕ) : ℕ := (a + b) % 2 ^ P.clockBits

/-- Subtraction of `clock_time_t` values. -/
def clockSub (a b : ℕ) : ℕ := (a + (2 ^ P.clockBits - b % 2 ^ P.clockBits)) % 2 ^ P.clockBits

def sessionRetryTimeout : ℕ := 120 * P.clockSecond
def hsRxTimeout : ℕ := P.sessionRetryTimeout
def hsResponseGrace : ℕ := 10 * P.clockSecond
def hsRetryTxDrainDelay : ℕ := P.clockSecond
def hsNackRepeatDelay : ℕ := 4 * P.clockSecond
def sendInterval : ℕ := P.clockSecond / 4

def cryptoWorkerKeypair (rnd : Entropy) : Bool × PublicKey × SecretKey :=
  ((P.cryptoKemKeypair rnd).1 == 0, (P.cryptoKemKeypair rnd).2)

/-- Both output arrays are written whether or not the call succeeds. -/
def cryptoWorkerEncapsulate (rnd : Entropy) (pk : PublicKey) : Bool × Ciphertext × SharedSecret :=
  ((P.cryptoKemEnc rnd pk).1 == 0, (P.cryptoKemEnc rnd pk).2)

def cryptoWorkerDecapsulate (sk : SecretKey) (ct : Ciphertext) : Bool × SharedSecret :=
  ((P.cryptoKemDec sk ct).1 == 0, (P.cryptoKemDec sk ct).2)

def cryptoWorkerDeriveAesKey (ss : SharedSecret) : AesKey := P.shake256 cwAesKeyLen ss.toList

def cryptoWorkerDeriveAesIv (ss : SharedSecret) (counter : UInt32) : AesIv :=
  P.shake256 cwAesIvLen (ss.toList ++ [(counter >>> 24).toUInt8, (counter >>> 16).toUInt8,
    (counter >>> 8).toUInt8, counter.toUInt8])

def cryptoWorkerAesCtrXcrypt (key : AesKey) (iv : AesIv) (buf : Bytes) : Bytes :=
  buf.mapIdx fun i b => b ^^^ P.aesCtrKeystream key iv i

/-- A platform on which concrete runs can be followed: a ciphertext is one random byte repeated,
and its secret is the same byte. -/
def demo : Platform where
  clockSecond := 128
  clockBits := 32
  cryptoKemKeypair rnd :=
    (0, ⟨fun _ => UInt8.ofNat rnd⟩, ⟨fun _ => UInt8.ofNat rnd⟩)
  cryptoKemEnc rnd _ :=
    (0, ⟨fun _ => UInt8.ofNat rnd⟩, ⟨fun _ => UInt8.ofNat rnd⟩)
  cryptoKemDec _ ct := (0, ⟨fun _ => ct.get 0⟩)
  shake256 _ data := ⟨fun i => byteAt data i⟩
  aesCtrKeystream key _ i := byteAt key.toList i

end Platform

/-- What a handler does besides changing the state: its KEM calls, the acknowledgements it
emits, and the message of the last branch of `hs_fsm_retry`. Nothing in the program reads it. -/
inductive Observation where
  | encapsulate (nodeId : UInt16) (pk : PublicKey) (ok : Bool) (ct : Ciphertext)
      (ss : SharedSecret)
  | decapsulate (nodeId : UInt16) (ct : Ciphertext) (ok : Bool) (ss : SharedSecret)
  | ack (nodeId : UInt16) (packet : Bytes) (ss : SharedSecret)
  | retryWithoutPending (nodeId : UInt16)
deriving DecidableEq

end PqcContiki
