/-
  The life cycle of a hash object.

  `HashView` is what the object stands for: the updates since the last reset, and whether a
  digest has been taken.  The calls on an object are calls on its view (`lifeSpec`), for every
  type of hash; the digest is the one of the concatenated updates as long as each of them is
  counted in full.
-/
import Plibsys.Crypto.CryptoHash
import Plibsys.Crypto.GostStream
import Plibsys.Crypto.MdHashes
import Plibsys.Lib.Runs

namespace Plibsys

open Bytes Blocks Runs

/-! ## Calls -/

inductive DigestCall where
  | update (data : List UInt8)
  | reset
  | getString
  | getDigest (len : ℕ)

inductive DigestReply where
  | void
  | string (s : Option (List Char))
  | digest (bytes : List UInt8) (len : ℕ)

variable {Context : Type}

def digestCall : DigestCall → PCryptoHash Context → Option (DigestReply × PCryptoHash Context)
  | .update data, hash => (pCryptoHashUpdate hash data).map fun hash => (.void, hash)
  | .reset, hash => some (.void, pCryptoHashReset hash)
  | .getString, hash => (pCryptoHashGetString hash).map fun r => (.string r.1, r.2)
  | .getDigest len, hash => (pCryptoHashGetDigest hash len).map fun r => (.digest r.1.1 r.1.2, r.2)

/-! ## What the calls mean -/

/-- The updates since the last reset, and whether the digest has been taken. -/
structure HashView where
  updates : List (List UInt8)
  closed : Bool

/-- Two lowercase digits for each byte. -/
def lowerHex (bytes : List UInt8) : List Char :=
  bytes.flatMap fun b => [(b.toNat / 16).digitChar, (b.toNat % 16).digitChar]

/-- What a call does when the digest of the updates `u` is `D u`, of `hashLen` bytes. -/
def lifeSpec (hashLen : ℕ) (D : List (List UInt8) → List UInt8) (v : HashView) :
    DigestCall → DigestReply → HashView → Prop
  | .update data, r, v' =>
    r = .void ∧ v' = if data = [] ∨ v.closed then v else { v with updates := v.updates ++ [data] }
  | .reset, r, v' => r = .void ∧ v' = ⟨[], false⟩
  | .getString, r, v' =>
    if v.updates = [] then r = .string none ∧ v' = v
    else r = .string (some (lowerHex (D v.updates))) ∧ v' = { v with closed := true }
  | .getDigest len, r, v' =>
    if v.updates = [] ∨ len < hashLen then r = .digest [] 0 ∧ v' = v
    else r = .digest (D v.updates) hashLen ∧ v' = { v with closed := true }

/-! ## An object and its view -/

namespace PHashFuncs

/-- The functions of an algorithm do not fail on contexts that satisfy `inv`, and `reset` restores
    the new context. -/
structure Sound (f : PHashFuncs Context) (inv : Context → Prop) : Prop where
  create : inv f.create
  update : ∀ c data, inv c → ∃ c', f.update c data = some c' ∧ inv c'
  finish : ∀ c, inv c → ∃ c', f.finish c = some c' ∧ inv c'
  reset : ∀ c, inv c → f.reset c = f.create

/-- A new context with these updates. -/
def feed (f : PHashFuncs Context) (updates : List (List UInt8)) : Option Context :=
  updates.foldlM f.update f.create

/-- The digest of these updates: each is fed to a new context, which is then finished. -/
def digestOf (f : PHashFuncs Context) (hashLen : ℕ) (updates : List (List UInt8)) : List UInt8 :=
  match f.feed updates >>= f.finish with
  | some c => (f.digest c).take hashLen
  | none => []

end PHashFuncs

variable {f : PHashFuncs Context} {inv : Context → Prop} {c₁ c₂ : Context} {updates : List (List UInt8)}
  {hash : PCryptoHash Context} {v : HashView}
  {type : PCryptoHashType} {len : ℕ}

theorem digestOf_eq (hfeed : f.feed updates = some c₁) (hfinish : f.finish c₁ = some c₂) :
    f.digestOf len updates = (f.digest c₂).take len := by
  have hbind : f.feed updates >>= f.finish = some c₂ := by
    rw [hfeed]
    exact hfinish
  rw [PHashFuncs.digestOf, hbind]

/-- The updates do not fail. -/
theorem PHashFuncs.Sound.feed_total (hf : f.Sound inv) (updates : List (List UInt8)) :
    ∃ c, f.feed updates = some c ∧ inv c := by
  have hfold : ∀ c, inv c → ∃ c', updates.foldlM f.update c = some c' ∧ inv c' := by
    induction updates with
    | nil => exact fun c hc => ⟨c, rfl, hc⟩
    | cons data updates ih =>
      intro c hc
      obtain ⟨c₁, hupdate, hc₁⟩ := hf.update c data hc
      rw [List.foldlM_cons, hupdate]
      exact ih c₁ hc₁
  exact hfold _ hf.create

theorem length_digestOf (hf : f.Sound inv) (hlen : ∀ c, len ≤ (f.digest c).length) (updates : List (List UInt8)) :
    (f.digestOf len updates).length = len := by
  obtain ⟨c₁, hfeed, hinv⟩ := hf.feed_total updates
  obtain ⟨c₂, hfinish, -⟩ := hf.finish c₁ hinv
  rw [digestOf_eq hfeed hfinish, List.length_take_of_le (hlen c₂)]

/-- The object has the functions `f` and is in the state that its view describes. -/
structure Views (f : PHashFuncs Context) (len : ℕ) (inv : Context → Prop) (hash : PCryptoHash Context)
    (v : HashView) :
    Prop where
  funcs_eq : hash.funcs = f
  len_eq : hash.hash_len = len
  inv : inv hash.context
  closed_eq : hash.closed = v.closed
  reseted_eq : hash.reseted = true ↔ v.updates = []
  context_eq : (if v.closed then f.feed v.updates >>= f.finish else f.feed v.updates) = some hash.context

theorem ppCryptoHashClose_views (hf : f.Sound inv) (h : Views f len inv hash v) :
    ∃ hash', ppCryptoHashClose hash = some hash' ∧ Views f len inv hash' { v with closed := true } ∧
      (hash'.funcs.digest hash'.context).take hash'.hash_len = f.digestOf len v.updates := by
  have hdigest : ∀ hash', Views f len inv hash' { v with closed := true } →
      (hash'.funcs.digest hash'.context).take hash'.hash_len = f.digestOf len v.updates := by
    intro hash' h'
    have hcontext := h'.context_eq
    rw [if_pos rfl] at hcontext
    rw [PHashFuncs.digestOf, hcontext, h'.funcs_eq, h'.len_eq]
  have hcontext := h.context_eq
  rw [ppCryptoHashClose, h.closed_eq]
  cases hclosed : v.closed with
  | true =>
    have h' : Views f len inv hash { v with closed := true } := by rwa [← hclosed]
    exact ⟨hash, rfl, h', hdigest hash h'⟩
  | false =>
    rw [hclosed, if_neg Bool.false_ne_true] at hcontext
    obtain ⟨context, hfinish, hinv⟩ := hf.finish _ h.inv
    have h' : Views f len inv { hash with context := context, closed := true } { v with closed := true } :=
      ⟨h.funcs_eq, h.len_eq, hinv, rfl, h.reseted_eq, by rw [if_pos rfl, hcontext]; exact hfinish⟩
    refine ⟨_, ?_, h', hdigest _ h'⟩
    rw [h.funcs_eq]
    show (f.finish hash.context).bind _ = _
    rw [hfinish]
    rfl

theorem ppCryptoHashDigestToHex_eq (digest : List UInt8) : ppCryptoHashDigestToHex digest = lowerHex digest := by
  have hbyte : ∀ n : Fin 256, [ppCryptoHashHexStr[((UInt8.ofNat n >>> 4) &&& 0x0F).toNat]!,
      ppCryptoHashHexStr[(UInt8.ofNat n &&& 0x0F).toNat]!] = [(n.val / 16).digitChar, (n.val % 16).digitChar] := by
    decide +kernel
  rw [ppCryptoHashDigestToHex, lowerHex]
  congr 1
  funext b
  have hb := hbyte ⟨b.toNat, b.toNat_lt⟩
  rwa [UInt8.ofNat_toNat] at hb

theorem digestCall_update (hf : f.Sound inv) (h : Views f len inv hash v) (data : List UInt8) :
    ∃ hash', pCryptoHashUpdate hash data = some hash' ∧
      Views f len inv hash' (if data = [] ∨ v.closed then v else { v with updates := v.updates ++ [data] }) := by
  rw [pCryptoHashUpdate]
  by_cases hdata : data = []
  · rw [if_pos (List.length_eq_zero_iff.2 hdata), if_pos (.inl hdata)]
    exact ⟨hash, rfl, h⟩
  rw [if_neg fun hlen => hdata (List.length_eq_zero_iff.1 hlen)]
  by_cases hclosed : v.closed = true
  · rw [if_pos (h.closed_eq.trans hclosed), if_pos (.inr hclosed)]
    exact ⟨hash, rfl, h⟩
  · have hcontext := h.context_eq
    rw [if_neg hclosed] at hcontext
    obtain ⟨context, hupdate, hinv⟩ := hf.update _ data h.inv
    rw [if_neg (h.closed_eq ▸ hclosed), if_neg (not_or.2 ⟨hdata, hclosed⟩), h.funcs_eq]
    refine ⟨{ hash with context := context, reseted := false }, ?_, h.funcs_eq, h.len_eq, hinv, h.closed_eq,
      ?_, ?_⟩
    · show (f.update hash.context data).bind _ = _
      rw [hupdate, ← h.funcs_eq]
      rfl
    · simp
    · show (if v.closed = true then _ else f.feed (v.updates ++ [data])) = some context
      rw [if_neg hclosed, PHashFuncs.feed, List.foldlM_append]
      show (f.feed v.updates).bind _ = _
      rw [hcontext]
      show (f.update hash.context data).bind _ = _
      rw [hupdate]
      rfl

/-- **One call.** -/
theorem digestCall_spec (hf : f.Sound inv) (h : Views f len inv hash v) (call : DigestCall) :
    ∃ r hash' v', digestCall call hash = some (r, hash') ∧ lifeSpec len (f.digestOf len) v call r v' ∧
      Views f len inv hash' v' := by
  have hreseted : hash.reseted = true ↔ v.updates = [] := h.reseted_eq
  cases call with
  | update data =>
    obtain ⟨hash', hupdate, hviews⟩ := digestCall_update hf h data
    exact ⟨.void, hash', _, by rw [digestCall, hupdate]; rfl, ⟨rfl, rfl⟩, hviews⟩
  | reset =>
    refine ⟨.void, pCryptoHashReset hash, ⟨[], false⟩, rfl, ⟨rfl, rfl⟩, h.funcs_eq, h.len_eq, ?_, rfl, ?_, ?_⟩
    · show inv (hash.funcs.reset hash.context)
      rw [h.funcs_eq, hf.reset _ h.inv]
      exact hf.create
    · exact ⟨fun _ => rfl, fun _ => rfl⟩
    · show some f.create = some (hash.funcs.reset hash.context)
      rw [h.funcs_eq, hf.reset _ h.inv]
  | getString =>
    rw [digestCall, pCryptoHashGetString]
    by_cases hupdates : v.updates = []
    · refine ⟨.string none, hash, v, ?_, ?_, h⟩
      · rw [if_pos (hreseted.2 hupdates)]
        rfl
      · simp only [lifeSpec, if_pos hupdates, and_self]
    · obtain ⟨hash', hclose, hviews, hdigest⟩ := ppCryptoHashClose_views hf h
      refine ⟨.string (some (lowerHex (f.digestOf len v.updates))), hash', _, ?_, ?_, hviews⟩
      · rw [if_neg fun hr => hupdates (hreseted.1 hr), hclose, ← hdigest, ← ppCryptoHashDigestToHex_eq]
        rfl
      · simp only [lifeSpec, if_neg hupdates, and_self]
  | getDigest cap =>
    rw [digestCall, pCryptoHashGetDigest, h.len_eq]
    by_cases hnone : v.updates = [] ∨ cap < len
    · refine ⟨.digest [] 0, hash, v, ?_, ?_, h⟩
      · by_cases hupdates : v.updates = []
        · rw [if_pos (hreseted.2 hupdates)]
          rfl
        · rw [if_neg fun hr => hupdates (hreseted.1 hr), if_pos (hnone.resolve_left hupdates)]
          rfl
      · simp only [lifeSpec, if_pos hnone, and_self]
    · obtain ⟨hupdates, hcap⟩ := not_or.1 hnone
      obtain ⟨hash', hclose, hviews, hdigest⟩ := ppCryptoHashClose_views hf h
      refine ⟨.digest (f.digestOf len v.updates) len, hash', _, ?_, ?_, hviews⟩
      · rw [if_neg fun hr => hupdates (hreseted.1 hr), if_neg hcap, hclose, ← hdigest, ← hviews.len_eq]
        rfl
      · simp only [lifeSpec, if_neg hnone, and_self]

/-! ## Updates that are counted in full -/

/-- An update of the run has less than `n` bytes. -/
def DigestCall.Below (n : ℕ) : DigestCall → Prop
  | .update data => data.length < n
  | _ => True

/-- Only the digest of the updates so far matters for a call. -/
theorem lifeSpec_congr {D D' : List (List UInt8) → List UInt8} {v' : HashView} {call : DigestCall}
    {r : DigestReply} (hD : D v.updates = D' v.updates) (h : lifeSpec len D v call r v') :
    lifeSpec len D' v call r v' := by
  cases call with
  | update data => exact h
  | reset => exact h
  | getString => rwa [lifeSpec, ← hD]
  | getDigest cap => rwa [lifeSpec, ← hD]

/-- Where the updates come from. -/
theorem lifeSpec_below {D : List (List UInt8) → List UInt8} {v' : HashView} {call : DigestCall}
    {r : DigestReply} {n : ℕ} (h : lifeSpec len D v call r v') (hcall : call.Below n)
    (hv : ∀ data ∈ v.updates, data.length < n) : ∀ data ∈ v'.updates, data.length < n := by
  cases call with
  | update data =>
    obtain ⟨-, rfl⟩ := h
    split
    · exact hv
    · intro d hd
      rcases List.mem_append.1 hd with hd | hd
      · exact hv d hd
      · exact List.mem_singleton.1 hd ▸ hcall
  | reset =>
    obtain ⟨-, rfl⟩ := h
    simp
  | getString =>
    rw [lifeSpec] at h
    split at h <;> (obtain ⟨-, rfl⟩ := h; exact hv)
  | getDigest cap =>
    rw [lifeSpec] at h
    split at h <;> (obtain ⟨-, rfl⟩ := h; exact hv)

/-- **A run of calls with short updates**, for which the digest is known. -/
theorem run_digestCall_below {D : List (List UInt8) → List UInt8} {n : ℕ} {calls : List DigestCall}
    (hf : f.Sound inv)
    (hD : ∀ updates : List (List UInt8), (∀ data ∈ updates, data.length < n) → f.digestOf len updates = D updates)
    (hcalls : ∀ call ∈ calls, call.Below n) (h : Views f len inv hash ⟨[], false⟩) :
    ∃ rs hash' v, run digestCall calls hash = some (rs, hash') ∧
      SpecRun (lifeSpec len D) ⟨[], false⟩ calls rs v := by
  have hany : Along digestCall (fun _ _ => True) calls hash := .of_forall (fun _ _ => trivial) _ _
  have hok : Along digestCall (fun _ call => call.Below n) calls hash :=
    hany.imp (R := fun _ => True) trivial fun call hcall _ _ _ => ⟨hcalls call hcall, fun _ _ _ => trivial⟩
  have hstart : Views f len inv hash ⟨[], false⟩ ∧ ∀ data ∈ ([] : List (List UInt8)), data.length < n :=
    ⟨h, fun _ hdata => absurd hdata List.not_mem_nil⟩
  have hstep : ∀ (m : ℕ) hash v call, (Views f len inv hash v ∧ ∀ data ∈ v.updates, data.length < n) →
      call.Below n → ∃ r hash' v', digestCall call hash = some (r, hash') ∧ lifeSpec len D v call r v' ∧
        Views f len inv hash' v' ∧ ∀ data ∈ v'.updates, data.length < n := by
    rintro - hash v call ⟨h, hv⟩ hcall
    obtain ⟨r, hash', v', hcall', hspec, h'⟩ := digestCall_spec hf h call
    exact ⟨r, hash', v', hcall', lifeSpec_congr (hD _ hv) hspec, h', lifeSpec_below hspec hcall hv⟩
  obtain ⟨rs, hash', v, hrun, hspec, -⟩ := simulates
    (R := fun _ hash v => Views f len inv hash v ∧ ∀ data ∈ v.updates, data.length < n) hok hstart hstep
  exact ⟨rs, hash', v, hrun, hspec⟩

/-- One update, and the digest. -/
theorem run_update_getDigest (hf : f.Sound inv) (h : Views f len inv hash ⟨[], false⟩) {data : List UInt8}
    (hdata : data ≠ []) :
    ∃ hash', run digestCall [.update data, .getDigest len] hash =
      some ([.void, .digest (f.digestOf len [data]) len], hash') := by
  obtain ⟨hash₁, hupdate, h₁⟩ := digestCall_update hf h data
  rw [if_neg (not_or.2 ⟨hdata, Bool.false_ne_true⟩)] at h₁
  obtain ⟨r, hash', v', hcall, hspec, -⟩ := digestCall_spec hf h₁ (.getDigest len)
  rw [lifeSpec, if_neg (not_or.2 ⟨by simp, Nat.lt_irrefl len⟩)] at hspec
  obtain ⟨rfl, -⟩ := hspec
  have hfirst : digestCall (.update data) hash = some (.void, hash₁) := by
    rw [digestCall, hupdate]
    rfl
  refine ⟨hash', ?_⟩
  rw [run_cons hfirst, run_cons hcall]
  rfl

/-! ## The algorithms -/

section
variable {w n : ℕ} {alg : MdAlgorithm w n} (host : ByteOrder) (flag : Bool)

def mdFuncs (alg : MdAlgorithm w n) : PHashFuncs (PHashContext w n) :=
  ⟨mdNew alg flag, mdUpdate host alg, mdFinish host alg, mdDigest host, mdReset alg⟩

theorem mdFuncs_sound (h : alg.Lawful) :
    (mdFuncs host flag alg).Sound fun c => c.buf.length = 2 * w ∧ c.flag = flag where
  create := ⟨(mdNew_absorbed flag).buf_length, rfl⟩
  update := by
    rintro c data ⟨hbuf, rfl⟩
    exact mdUpdate_total host h hbuf data
  finish := by
    rintro c ⟨hbuf, rfl⟩
    exact mdFinish_total host h hbuf
  reset := by
    rintro c ⟨-, rfl⟩
    rfl

theorem mdFuncs_digestOf (h : alg.Lawful) {updates : List (List UInt8)}
    (hupdates : ∀ data ∈ updates, data.length < 2 ^ w) :
    (mdFuncs host flag alg).digestOf (alg.digestWords flag * (w / 8)) updates =
    alg.digest flag updates.flatten := by
  obtain ⟨c₁, hfeed, ha⟩ := mdUpdates_absorbed host h (mdNew_absorbed flag) hupdates
  obtain ⟨c₂, hfinish, -, -, hdigest⟩ := mdFinish_digest host h ha
  rw [List.nil_append] at hdigest
  rw [← hdigest]
  exact digestOf_eq hfeed hfinish

theorem gostFuncs_sound : (pHashFuncs host .GOST).Sound fun ctx : PHashGOST3411 => ctx.buf.length = 32 where
  create := List.length_replicate
  update _ data hbuf := pCryptoHashGost3411Update_total host hbuf data
  finish _ hbuf := pCryptoHashGost3411Finish_total host hbuf
  reset _ _ := rfl

theorem gostFuncs_digestOf {updates : List (List UInt8)} (hupdates : ∀ data ∈ updates, data.length < 2 ^ 32) :
    (pHashFuncs host .GOST).digestOf 32 updates = gost3411Digest updates.flatten := by
  obtain ⟨c₁, hfeed, ha⟩ := pCryptoHashGost3411Updates_absorbed host
    (pCryptoHashGost3411Reset_absorbed pCryptoHashGost3411New) hupdates
  obtain ⟨c₂, hfinish, hdigest⟩ := pCryptoHashGost3411Finish_digest host ha
  have hlen : (pCryptoHashGost3411Digest host c₂).length = 32 := length_hostBytes host c₂.hash
  rw [List.nil_append] at hdigest
  rw [← hdigest, ← List.take_of_length_le (Nat.le_of_eq hlen)]
  exact digestOf_eq hfeed hfinish

end

/-- The hash of a message, by type. -/
def PCryptoHashType.digest : PCryptoHashType → List UInt8 → List UInt8
  | .MD5 => md5Algorithm.digest false
  | .SHA1 => sha1Algorithm.digest false
  | .SHA2_224 => sha2_256Algorithm.digest true
  | .SHA2_256 => sha2_256Algorithm.digest false
  | .SHA2_384 => sha2_512Algorithm.digest true
  | .SHA2_512 => sha2_512Algorithm.digest false
  | .GOST => gost3411Digest

/-- An update with less bytes than this is counted in full. -/
def PCryptoHashType.counted : PCryptoHashType → ℕ
  | .SHA2_384 | .SHA2_512 => 2 ^ 64
  | _ => 2 ^ 32

theorem pHashFuncs_sound (host : ByteOrder) (type : PCryptoHashType) :
    ∃ inv, (pHashFuncs host type).Sound inv := by
  cases type
  · exact ⟨_, mdFuncs_sound host false md5Algorithm_lawful⟩
  · exact ⟨_, mdFuncs_sound host false sha1Algorithm_lawful⟩
  · exact ⟨_, mdFuncs_sound host true sha2_256Algorithm_lawful⟩
  · exact ⟨_, mdFuncs_sound host false sha2_256Algorithm_lawful⟩
  · exact ⟨_, mdFuncs_sound host true sha2_512Algorithm_lawful⟩
  · exact ⟨_, mdFuncs_sound host false sha2_512Algorithm_lawful⟩
  · exact ⟨_, gostFuncs_sound host⟩

theorem pHashFuncs_digestOf (host : ByteOrder) (type : PCryptoHashType)
    (hupdates : ∀ data ∈ updates, data.length < type.counted) :
    (pHashFuncs host type).digestOf type.hashLen updates = type.digest updates.flatten := by
  cases type
  · exact mdFuncs_digestOf host false md5Algorithm_lawful hupdates
  · exact mdFuncs_digestOf host false sha1Algorithm_lawful hupdates
  · exact mdFuncs_digestOf host true sha2_256Algorithm_lawful hupdates
  · exact mdFuncs_digestOf host false sha2_256Algorithm_lawful hupdates
  · exact mdFuncs_digestOf host true sha2_512Algorithm_lawful hupdates
  · exact mdFuncs_digestOf host false sha2_512Algorithm_lawful hupdates
  · exact gostFuncs_digestOf host hupdates

theorem hashLen_le (host : ByteOrder) (type : PCryptoHashType) (c : type.Context) :
    type.hashLen ≤ ((pHashFuncs host type).digest c).length := by
  cases type <;> exact Nat.le_trans (by decide) (Nat.le_of_eq (length_hostBytes host _).symm)

theorem pCryptoHashNew_views {host : ByteOrder} {inv : type.Context → Prop}
    (hf : (pHashFuncs host type).Sound inv) :
    Views (pHashFuncs host type) type.hashLen inv (pCryptoHashNew host type) ⟨[], false⟩ :=
  ⟨rfl, rfl, hf.create, rfl, ⟨fun _ => rfl, fun _ => rfl⟩, rfl⟩

end Plibsys
