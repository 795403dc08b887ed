/-
  The hash object (`pcryptohash.c`).

  `PCryptoHash` keeps the functions of its algorithm as `P_HASH_FUNCS` sets them.  Pointers are
  not `NULL` and allocation succeeds.
-/
import Plibsys.Crypto.Gost3411
import Plibsys.Crypto.Md5
import Plibsys.Crypto.Sha1
import Plibsys.Crypto.Sha256
import Plibsys.Crypto.Sha512

namespace Plibsys

open Bytes

inductive PCryptoHashType where
  | MD5
  | SHA1
  | SHA2_224
  | SHA2_256
  | SHA2_384
  | SHA2_512
  | GOST
  deriving DecidableEq, Repr

/-- The context of each type. -/
def PCryptoHashType.Context : PCryptoHashType → Type
  | .MD5 => PHashContext 32 4
  | .SHA1 => PHashContext 32 5
  | .SHA2_224 | .SHA2_256 => PHashContext 32 8
  | .SHA2_384 | .SHA2_512 => PHashContext 64 8
  | .GOST => PHashGOST3411

/-- The function pointers of `PCryptoHash`. -/
structure PHashFuncs (Context : Type) where
  create : Context
  update : Context → List UInt8 → Option Context
  finish : Context → Option Context
  digest : Context → List UInt8
  reset : Context → Context

structure PCryptoHash (Context : Type) where
  type : PCryptoHashType
  context : Context
  hash_len : ℕ
  closed : Bool
  reseted : Bool
  funcs : PHashFuncs Context

/-- `P_HASH_FUNCS (ret, type)`. -/
def pHashFuncs (host : ByteOrder) : (type : PCryptoHashType) → PHashFuncs type.Context
  | .MD5 => ⟨pCryptoHashMd5New, pCryptoHashMd5Update host, pCryptoHashMd5Finish host, pCryptoHashMd5Digest host,
      pCryptoHashMd5Reset⟩
  | .SHA1 => ⟨pCryptoHashSha1New, pCryptoHashSha1Update host, pCryptoHashSha1Finish host,
      pCryptoHashSha1Digest host, pCryptoHashSha1Reset⟩
  | .SHA2_224 => ⟨pCryptoHashSha2_224New, pCryptoHashSha2_256Update host, pCryptoHashSha2_256Finish host,
      pCryptoHashSha2_256Digest host, pCryptoHashSha2_256Reset⟩
  | .SHA2_256 => ⟨pCryptoHashSha2_256New, pCryptoHashSha2_256Update host, pCryptoHashSha2_256Finish host,
      pCryptoHashSha2_256Digest host, pCryptoHashSha2_256Reset⟩
  | .SHA2_384 => ⟨pCryptoHashSha2_384New, pCryptoHashSha2_512Update host, pCryptoHashSha2_512Finish host,
      pCryptoHashSha2_512Digest host, pCryptoHashSha2_512Reset⟩
  | .SHA2_512 => ⟨pCryptoHashSha2_512New, pCryptoHashSha2_512Update host, pCryptoHashSha2_512Finish host,
      pCryptoHashSha2_512Digest host, pCryptoHashSha2_512Reset⟩
  | .GOST => ⟨pCryptoHashGost3411New, pCryptoHashGost3411Update host, pCryptoHashGost3411Finish host,
      pCryptoHashGost3411Digest host, pCryptoHashGost3411Reset⟩

/-- `hash_len`, as `p_crypto_hash_new` sets it. -/
def PCryptoHashType.hashLen : PCryptoHashType → ℕ
  | .MD5 => 16
  | .SHA1 => 20
  | .SHA2_224 => 28
  | .SHA2_256 => 32
  | .SHA2_384 => 48
  | .SHA2_512 => 64
  | .GOST => 32

def ppCryptoHashHexStr : Vector Char 16 :=
  #v['0', '1', '2', '3', '4', '5', '6', '7', '8', '9', 'a', 'b', 'c', 'd', 'e', 'f']

def ppCryptoHashDigestToHex (digest : List UInt8) : List Char :=
  digest.flatMap fun (b : UInt8) =>
    [ppCryptoHashHexStr[((b >>> 4) &&& 0x0F).toNat]!, ppCryptoHashHexStr[(b &&& 0x0F).toNat]!]

def pCryptoHashNew (host : ByteOrder) (type : PCryptoHashType) : PCryptoHash type.Context :=
  let funcs := pHashFuncs host type
  { type := type, context := funcs.create, hash_len := type.hashLen,
    closed := false, reseted := true, funcs := funcs }

variable {Context : Type} (hash : PCryptoHash Context)

def pCryptoHashUpdate (data : List UInt8) : Option (PCryptoHash Context) :=
  if data.length = 0 then
    some hash
  else if hash.closed then
    some hash
  else do
    let context ← hash.funcs.update hash.context data
    return { hash with context := context, reseted := false }

def pCryptoHashReset : PCryptoHash Context :=
  { hash with context := hash.funcs.reset hash.context, closed := false, reseted := true }

/-- `if (!hash->closed) ...` of the two functions that return the digest. -/
def ppCryptoHashClose : Option (PCryptoHash Context) :=
  if !hash.closed then do
    let context ← hash.funcs.finish hash.context
    return { hash with context := context, closed := true }
  else
    return hash

/-- The string, or `none` for `NULL`. -/
def pCryptoHashGetString : Option (Option (List Char) × PCryptoHash Context) :=
  if hash.reseted then
    some (none, hash)
  else do
    let hash ← ppCryptoHashClose hash
    let digest := hash.funcs.digest hash.context
    return (some (ppCryptoHashDigestToHex (digest.take hash.hash_len)), hash)

/-- The bytes that are written to `buf`, and `*len` afterwards. -/
def pCryptoHashGetDigest (len : ℕ) : Option ((List UInt8 × ℕ) × PCryptoHash Context) :=
  if hash.reseted then
    some (([], 0), hash)
  else if hash.hash_len > len then
    some (([], 0), hash)
  else do
    let hash ← ppCryptoHashClose hash
    let digest := hash.funcs.digest hash.context
    return ((digest.take hash.hash_len, hash.hash_len), hash)

def pCryptoHashGetLength : ℕ := hash.hash_len

def pCryptoHashGetType : PCryptoHashType := hash.type

end Plibsys
