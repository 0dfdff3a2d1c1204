import Orchid.Format.Toc

/-!
# Region bodies

A region is compressed, then encrypted; reading undoes both and checks the hashes.
-/

namespace Orchid.Format

inductive IdentityKind where
  | passphrase
  | x25519
deriving DecidableEq

/-- Code outside the repository: BLAKE3, zstd, age, FlatBuffers and C2PA. A `Seed` is the randomness
that one call draws. -/
structure Externals (Identity Seed : Type) where
  hashBytes : Bytes → Hash
  encodeAll : Bytes → Except String Bytes
  decodeAll : Bytes → Except String Bytes
  kind : Identity → IdentityKind
  encryptBytes : Seed → Identity → Bytes → Except String Bytes
  decryptBytes : Identity → Bytes → Except String Bytes
  /-- The finished buffer of a table; none if the builder panics over its size. -/
  finishTocBuffer : Toc → Option Bytes
  rootAsToc : Bytes → Except String Toc
  /-- The signed carrier for a title and a Clean-Text with the given hash and length. -/
  saveToStream : Seed → String → Hash → ℕ → Except String Bytes

/-- What those promise: what they write they read back. -/
structure Externals.RoundTrip {Identity Seed : Type} (x : Externals Identity Seed) : Prop where
  zstd : ∀ a b, x.encodeAll a = .ok b → x.decodeAll b = .ok a
  age : ∀ seed id a b, x.encryptBytes seed id a = .ok b → x.decryptBytes id b = .ok a
  toc : ∀ t b, x.finishTocBuffer t = some b → x.rootAsToc b = .ok t
  toc_ne_nil : ∀ t b, x.finishTocBuffer t = some b → b ≠ []

variable {Identity Seed : Type} (x : Externals Identity Seed)

def compressZstd (plaintext : Bytes) : Result Bytes := (x.encodeAll plaintext).mapError .regionDecode

def decompressZstd (payload : Bytes) : Result Bytes := (x.decodeAll payload).mapError .regionDecode

/-- A region body ready to be written. -/
structure PreparedRegionBody where
  stored : Bytes
  compression : CompressionCodec
  payloadBlake3 : Hash
  encryption : Option RegionEncryptionSpec

def identityKindByte : IdentityKind → U8
  | .passphrase => 0
  | .x25519 => 1

def compressWith (compression : CompressionCodec) (plaintext : Bytes) : Result Bytes :=
  if compression = CompressionCodec.none then .ok plaintext
  else if compression = CompressionCodec.zstd then compressZstd x plaintext
  else .error (.unsupportedCompression compression)

def decompressWith (compression : CompressionCodec) (compressed : Bytes) : Result Bytes :=
  if compression = CompressionCodec.none then .ok compressed
  else if compression = CompressionCodec.zstd then decompressZstd x compressed
  else .error (.unsupportedCompression compression)

/-- Optional zstd, then optional age. -/
def prepareRegionBody (seed : Seed) (plaintext : Bytes) (compression : CompressionCodec)
    (identity : Option Identity) : Result PreparedRegionBody := do
  let compressed ← compressWith x compression plaintext
  let payloadBlake3 := x.hashBytes compressed
  match identity with
  | none => return ⟨compressed, compression, payloadBlake3, none⟩
  | some identity =>
    let ciphertext ← (x.encryptBytes seed identity compressed).mapError .crypto
    return ⟨ciphertext, compression, payloadBlake3, some {
      ageHeader := []
      plaintextBlake3 := x.hashBytes plaintext
      identityKind := identityKindByte (x.kind identity)
      isPublic := false }⟩

def decryptWith (encryption : Option RegionEncryptionSpec) (identity : Option Identity)
    (stored : Bytes) : Result Bytes :=
  match encryption with
  | none => .ok stored
  | some enc =>
    if enc.isPublic then .ok stored
    else
      match identity with
      | none => .error .identityRequired
      | some identity => (x.decryptBytes identity stored).mapError .crypto

/-- Decrypt if needed, check the hashes, decompress. -/
def decodeRegionBody (stored : Bytes) (compression : CompressionCodec)
    (payloadBlake3 : Option Hash) (encryption : Option RegionEncryptionSpec)
    (identity : Option Identity) : Result Bytes := do
  let compressed ← decryptWith x encryption identity stored
  if payloadBlake3.any (x.hashBytes compressed ≠ ·) then
    .error (.regionDecode "payload BLAKE3 mismatch (compressed)")
  else
    let plaintext ← decompressWith x compression compressed
    if encryption.any fun enc => !enc.isPublic && x.hashBytes plaintext ≠ enc.plaintextBlake3 then
      .error (.regionDecode "plaintext BLAKE3 mismatch after decrypt")
    else return plaintext

lemma decompressWith_compressWith {x : Externals Identity Seed} (hx : x.RoundTrip)
    {compression : CompressionCodec} {plaintext compressed : Bytes}
    (h : compressWith x compression plaintext = .ok compressed) :
    decompressWith x compression compressed = .ok plaintext := by
  rw [compressWith] at h
  rw [decompressWith]
  split_ifs at h ⊢
  · exact h.symm
  · cases hz : x.encodeAll plaintext with
    | error e => simp [compressZstd, hz, Except.mapError] at h
    | ok b =>
      obtain rfl : b = compressed := by simpa [compressZstd, hz, Except.mapError] using h
      rw [decompressZstd, hx.zstd _ _ hz]
      rfl

/-- What was prepared with an identity is decoded with it. -/
lemma decodeRegionBody_prepare {x : Externals Identity Seed} (hx : x.RoundTrip) {seed : Seed}
    {plaintext : Bytes} {compression : CompressionCodec} {identity : Option Identity}
    {body : PreparedRegionBody}
    (h : prepareRegionBody x seed plaintext compression identity = .ok body) :
    body.compression = compression ∧
      decodeRegionBody x body.stored compression (some body.payloadBlake3) body.encryption identity =
        .ok plaintext := by
  cases hc : compressWith x compression plaintext with
  | error e => simp [prepareRegionBody, hc, bind, Except.bind] at h
  | ok compressed =>
    have hd := decompressWith_compressWith hx hc
    cases identity with
    | none =>
      obtain rfl : _ = body := by
        simpa [prepareRegionBody, hc, bind, Except.bind, pure, Except.pure] using h
      simp [decodeRegionBody, decryptWith, hd, bind, Except.bind, pure, Except.pure]
    | some identity =>
      cases he : x.encryptBytes seed identity compressed with
      | error e => simp [prepareRegionBody, hc, he, bind, Except.bind, Except.mapError] at h
      | ok ciphertext =>
        obtain rfl : _ = body := by
          simpa [prepareRegionBody, hc, he, bind, Except.bind, pure, Except.pure,
            Except.mapError] using h
        simp [decodeRegionBody, decryptWith, hx.age _ _ _ _ he, hd, bind, Except.bind, pure,
          Except.pure, Except.mapError]

end Orchid.Format
