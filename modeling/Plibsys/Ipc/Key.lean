/-
  Platform keys (`pipc.c`).

  A key is made from the SHA-1 hash of a name.  Names are lists of bytes without a NUL.
-/
import Plibsys.Crypto.LifeCycle
import Plibsys.Ipc.System

namespace Plibsys

open Programs Registries Bytes

/-- A string in a block of memory. -/
structure PString where
  block : ℕ
  chars : Path
  deriving DecidableEq, Repr

/-- The bytes of a string. -/
def stringBytes (chars : Path) : List UInt8 := chars.map fun c => UInt8.ofNat c.toNat

/-- `P_SEM_SUFFIX`. -/
def semSuffix : List UInt8 := stringBytes "_p_sem_object".toList

/-- `P_SHM_SUFFIX`. -/
def shmSuffix : List UInt8 := stringBytes "_p_shm_object".toList

theorem append_semSuffix_ne (name : List UInt8) : name ++ semSuffix ≠ [] := by
  rw [Ne, List.append_eq_nil_iff, not_and]
  exact fun _ => by decide

theorem append_shmSuffix_ne (name : List UInt8) : name ++ shmSuffix ≠ [] := by
  rw [Ne, List.append_eq_nil_iff, not_and]
  exact fun _ => by decide

/-- What the keys depend on: the byte order, and `P_tmpdir` with a slash. -/
structure Platform where
  host : ByteOrder
  tmpDir : Path

variable (pf : Platform)

/-- `p_ipc_unix_get_temp_dir`. -/
def pIpcUnixGetTempDir : SysM (Option PString) := do
  -- `strlen` of a failed `p_strdup`
  let some str ← pMalloc0 | .stuck
  let some ret ← pMalloc0 | do
    pFree str
    return none
  return some ⟨ret, pf.tmpDir⟩

/-- The hash object of `p_ipc_get_platform_key`, and the string that it gives. -/
def ipcHashString (name : List UInt8) : Option (Option (List Char)) := do
  let sha1 := pCryptoHashNew pf.host .SHA1
  let sha1 ← pCryptoHashUpdate sha1 name
  let (hash_str, _) ← pCryptoHashGetString sha1
  return hash_str

/-- `p_ipc_get_platform_key`. -/
def pIpcGetPlatformKey (name : List UInt8) (posix : Bool) : SysM (Option PString) := do
  let some sha1 ← pMalloc0 | return none
  let some context ← pMalloc0 | do
    pFree sha1
    return none
  let some hash_str ← Prog.ofOption (ipcHashString pf name) | do
    pFree context
    pFree sha1
    return none
  let block ← pMalloc0
  pFree context
  pFree sha1
  let some block := block | return none
  if posix then
    let some path_name ← pMalloc0 | do
      pFree block
      return none
    pFree block
    return some ⟨path_name, '/' :: hash_str.take 13⟩
  else
    -- `strlen` of the directory, which is not checked
    let some tmp_path ← pIpcUnixGetTempDir pf | .stuck
    let some path_name ← pMalloc0 | do
      pFree tmp_path.block
      pFree block
      return none
    pFree tmp_path.block
    pFree block
    return some ⟨path_name, tmp_path.chars ++ hash_str⟩

/-- The hash of a name. -/
def ipcHash (name : List UInt8) : List Char :=
  lowerHex ((pHashFuncs pf.host .SHA1).digestOf PCryptoHashType.SHA1.hashLen [name])

/-- The key of a name. -/
def platformKey (name : List UInt8) (posix : Bool) : Path :=
  if posix then '/' :: (ipcHash pf name).take 13 else pf.tmpDir ++ ipcHash pf name

theorem ipcHashString_eq {name : List UInt8} (hname : name ≠ []) :
    ipcHashString pf name = some (some (ipcHash pf name)) := by
  obtain ⟨inv, hsound⟩ := pHashFuncs_sound pf.host .SHA1
  have hnew := pCryptoHashNew_views hsound
  obtain ⟨sha1, hupdate, hviews⟩ := digestCall_update hsound hnew name
  rw [if_neg (by simp [hname])] at hviews
  obtain ⟨r, sha1', v, hcall, hspec, -⟩ := digestCall_spec hsound hviews .getString
  obtain ⟨rfl, -⟩ : r = .string (some (ipcHash pf name)) ∧ _ := by
    simpa [lifeSpec, ipcHash] using hspec
  obtain ⟨⟨s, sha1''⟩, hget, hreply⟩ := Option.map_eq_some_iff.1 hcall
  obtain rfl : s = some (ipcHash pf name) := by
    simpa using congrArg Prod.fst hreply
  rw [ipcHashString, hupdate]
  show (pCryptoHashGetString sha1).bind _ = _
  rw [hget]
  rfl

/-- **The key of a name**, when memory is allocated. -/
theorem exec_pIpcGetPlatformKey {name : List UInt8} (hname : name ≠ []) (posix : Bool) (s : SysState) :
    ∃ block heap, (pIpcGetPlatformKey pf name posix).exec sysCall s =
      some (some ⟨block, platformKey pf name posix⟩, { s with heap := heap }) := by
  simp only [pIpcGetPlatformKey, ipcHashString_eq pf hname]
  cases posix with
  | true => exact ⟨_, _, rfl⟩
  | false => exact ⟨_, _, rfl⟩

end Plibsys
