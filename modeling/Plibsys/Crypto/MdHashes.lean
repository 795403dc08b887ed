/-
  The six hashes that are built in this way.
-/
import Plibsys.Crypto.MdFinish
import Plibsys.Crypto.Md5
import Plibsys.Crypto.Sha1
import Plibsys.Crypto.Sha256
import Plibsys.Crypto.Sha512

namespace Plibsys

open Bytes

theorem md5Algorithm_lawful : md5Algorithm.Lawful := ⟨.inl rfl, pUint32SwapBytes_eq⟩

theorem sha1Algorithm_lawful : sha1Algorithm.Lawful := ⟨.inl rfl, pUint32SwapBytes_eq⟩

theorem sha2_256Algorithm_lawful : sha2_256Algorithm.Lawful := ⟨.inl rfl, pUint32SwapBytes_eq⟩

theorem sha2_512Algorithm_lawful : sha2_512Algorithm.Lawful := ⟨.inr rfl, pUint64SwapBytes_eq⟩

/-- **Hashing in chunks is hashing at once**, for each of the six hashes and both byte orders of
    the host. -/
theorem pCryptoHash_streams (host : ByteOrder) (M : List UInt8) (chunks : List (List UInt8))
    (hM : chunks.flatten = M) (hchunks : ∀ chunk ∈ chunks, chunk.length < 2 ^ 32) :
    md5Algorithm.Streams host false chunks M ∧
    sha1Algorithm.Streams host false chunks M ∧
    sha2_256Algorithm.Streams host true chunks M ∧
    sha2_256Algorithm.Streams host false chunks M ∧
    sha2_512Algorithm.Streams host true chunks M ∧
    sha2_512Algorithm.Streams host false chunks M := by
  have hwide : ∀ chunk ∈ chunks, chunk.length < 2 ^ 64 := fun chunk hmem =>
    Nat.lt_trans (hchunks chunk hmem) (by decide)
  exact ⟨md5Algorithm_lawful.streams host false hchunks hM, sha1Algorithm_lawful.streams host false hchunks hM,
    sha2_256Algorithm_lawful.streams host true hchunks hM, sha2_256Algorithm_lawful.streams host false hchunks hM,
    sha2_512Algorithm_lawful.streams host true hwide hM, sha2_512Algorithm_lawful.streams host false hwide hM⟩

/-- The two chunks of `abc`. -/
theorem pCryptoHash_streams_abc :
    let chunks : List (List UInt8) := [[0x61], [0x62, 0x63]]
    let M : List UInt8 := [0x61, 0x62, 0x63]
    chunks.flatten = M ∧ (∀ chunk ∈ chunks, chunk.length < 2 ^ 32) ∧
      md5Algorithm.Streams .little false chunks M ∧
      sha1Algorithm.Streams .little false chunks M ∧
      sha2_256Algorithm.Streams .little true chunks M ∧
      sha2_256Algorithm.Streams .little false chunks M ∧
      sha2_512Algorithm.Streams .little true chunks M ∧
      sha2_512Algorithm.Streams .little false chunks M :=
  ⟨rfl, by decide, pCryptoHash_streams .little _ _ rfl (by decide)⟩

end Plibsys
