/-
  What a hash object returns is the hash that the standards define.
-/
import Plibsys.Crypto.GostDigest
import Plibsys.Crypto.LifeCycle
import Plibsys.Crypto.Md5Block
import Plibsys.Crypto.Sha1Block
import Plibsys.Crypto.Sha2Block

namespace Plibsys

open BitStrings Blocks Bytes Runs

/-! ## Octets and words -/

namespace HashStandard

variable {w n : ℕ} {o : ByteOrder}

theorem number_arrange (bs : List UInt8) : number (arrange o (bitString bs)) = ofBytes o bs := by
  cases o with
  | big => exact number_bitString bs
  | little =>
    rw [arrange, reverseOctets_bitString, number_bitString]
    show value bs.reverse.reverse = value bs
    rw [List.reverse_reverse]

theorem arrange_binary (k x : ℕ) : arrange o (binary (8 * k) x) = bitString (toBytes o k x) := by
  rw [← bitString_toBytes]
  cases o with
  | big => rfl
  | little =>
    rw [arrange, reverseOctets_bitString]
    show bitString (digits k x).reverse.reverse = bitString (digits k x)
    rw [List.reverse_reverse]

/-- The words of a block of bytes. -/
theorem words_bitString (S : HashStandard w n) (hw : 8 ∣ w) (bs : List UInt8) :
    S.words (bitString bs) = hostWords S.order bs := by
  refine Vector.ext fun t ht => ?_
  have hblock : block w (bitString bs) t = bitString (block (w / 8) bs t) := by
    rw [← block_bitString, Nat.mul_div_cancel' hw]
  rw [words, hostWords, Vector.getElem_ofFn, Vector.getElem_ofFn]
  dsimp only
  rw [hblock, number_arrange]
  rfl

/-- The bytes of a hash value. -/
theorem output_eq (S : HashStandard w n) (hw : 8 ∣ w) (H : Vector (BitVec w) n) :
    S.output H = bitString ((hostBytes S.order H).take (S.outputWords * (w / 8))) := by
  have hword : ∀ v : BitVec w, arrange S.order (binary w v.toNat) = bitString (bytes S.order v) := by
    intro v
    rw [bytes, ← arrange_binary, Nat.mul_div_cancel' hw]
  have hlen : 8 * (S.outputWords * (w / 8)) = S.outputWords * w := by
    rw [Nat.mul_left_comm, Nat.mul_div_cancel' hw]
  rw [output, ← take_bitString, hlen, hostBytes, bitString, List.flatMap_assoc]
  congr 2
  funext v
  exact hword v

end HashStandard

/-! ## Messages -/

section
variable {w n : ℕ} {alg : MdAlgorithm w n} {flag : Bool} {S : HashStandard w n}

/-- The algorithm has the parameters of the standard. -/
structure MdAlgorithm.Implements (alg : MdAlgorithm w n) (flag : Bool) (S : HashStandard w n) : Prop where
  lawful : alg.Lawful
  order_eq : alg.order = S.order
  process_eq : ∀ hash data, alg.process hash data = S.compress hash data
  init_eq : alg.init flag = S.init
  words_eq : alg.digestWords flag = S.outputWords

theorem bitString_zeros (k : ℕ) : bitString (List.replicate k 0) = List.replicate (8 * k) false := by
  induction k with
  | zero => rfl
  | succ k ih =>
    rw [List.replicate_succ, bitString_cons, ih, Nat.mul_succ, Nat.add_comm, List.replicate_add]
    rfl

theorem bitString_padding (h : alg.Implements flag S) (M : List UInt8) :
    bitString (M ++ alg.padding M.length) = S.pad (bitString M) := by
  have hlength : bitString (toBytes alg.order (2 * (w / 8)) (8 * M.length)) =
      HashStandard.arrange S.order (binary (2 * w) (8 * M.length)) := by
    have hw : 8 * (2 * (w / 8)) = 2 * w := by
      rw [Nat.mul_left_comm, Nat.mul_div_cancel' h.lawful.dvd]
    rw [← HashStandard.arrange_binary, hw, h.order_eq]
  have hzeros : 7 + 8 * ((2 * w + 14 * (w / 8) - 1 - M.length % (2 * w)) % (2 * w)) =
      HashStandard.zeros w (8 * M.length) := by
    -- there is one number of zeros below a block
    have hpos : 0 < w := Nat.pos_of_mul_pos_left h.lawful.pos
    obtain ⟨hmod, hlt⟩ := HashStandard.zeros_spec hpos (8 * M.length)
    rcases h.lawful.width with rfl | rfl <;> omega
  have hone : binary 8 (0x80 : UInt8).toNat = true :: List.replicate 7 false := rfl
  rw [MdAlgorithm.padding, HashStandard.pad, length_bitString, ← hzeros, ← hlength, bitString_append,
    bitString_append, bitString_cons, bitString_zeros, hone, List.replicate_add, ← List.append_assoc]
  rfl

/-- **The digest is the hash of the standard.** -/
theorem MdAlgorithm.Implements.digest_eq (h : alg.Implements flag S) (M : List UInt8) :
    bitString (alg.digest flag M) = S.hash (bitString M) := by
  have hw : 8 ∣ w := h.lawful.dvd
  have hblocks : (S.pad (bitString M)).length / (16 * w) = (M ++ alg.padding M.length).length / (2 * w) := by
    rw [← bitString_padding h, length_bitString,
      show 16 * w = 8 * (2 * w) by omega, Nat.mul_div_mul_left _ _ (by decide)]
  have hstep : ∀ H xs, xs.length = 2 * w → S.compress H (S.words (bitString xs)) = alg.step H xs := by
    intro H xs _
    rw [S.words_bitString hw, MdAlgorithm.step, h.process_eq, h.order_eq]
  rw [HashStandard.hash, hblocks, ← bitString_padding h, show 16 * w = 8 * (2 * w) by omega]
  rw [chain_bitString (2 * w) _ _ (Nat.mul_div_le ..) hstep, S.output_eq hw, ← h.init_eq, ← h.order_eq,
    ← h.words_eq]
  rfl

end

/-! ## The hashes of the library -/

theorem md5Algorithm_implements : md5Algorithm.Implements false Rfc1321.md5 :=
  ⟨md5Algorithm_lawful, rfl, md5Process_eq_compress, by decide +kernel, rfl⟩

theorem sha1Algorithm_implements : sha1Algorithm.Implements false Fips180.sha1 :=
  ⟨sha1Algorithm_lawful, rfl, sha1Process_eq_compress, by decide +kernel, rfl⟩

theorem sha2_256Algorithm_implements : sha2_256Algorithm.Implements false Fips180.sha256Hash :=
  ⟨sha2_256Algorithm_lawful, rfl, ppCryptoHashSha2_256Process_eq, by decide +kernel, rfl⟩

theorem sha2_224Algorithm_implements : sha2_256Algorithm.Implements true Fips180.sha224Hash :=
  ⟨sha2_256Algorithm_lawful, rfl, ppCryptoHashSha2_256Process_eq, by decide +kernel, rfl⟩

theorem sha2_512Algorithm_implements : sha2_512Algorithm.Implements false Fips180.sha512Hash :=
  ⟨sha2_512Algorithm_lawful, rfl, ppCryptoHashSha2_512Process_eq, by decide +kernel, rfl⟩

theorem sha2_384Algorithm_implements : sha2_512Algorithm.Implements true Fips180.sha384Hash :=
  ⟨sha2_512Algorithm_lawful, rfl, ppCryptoHashSha2_512Process_eq, by decide +kernel, rfl⟩

/-- The standard of each type, on strings of bits. -/
noncomputable def PCryptoHashType.standard : PCryptoHashType → List Bool → List Bool
  | .MD5 => Rfc1321.md5.hash
  | .SHA1 => Fips180.sha1.hash
  | .SHA2_224 => Fips180.sha224Hash.hash
  | .SHA2_256 => Fips180.sha256Hash.hash
  | .SHA2_384 => Fips180.sha384Hash.hash
  | .SHA2_512 => Fips180.sha512Hash.hash
  | .GOST => fun bits => reverseOctets (binary 256 (Gost94.hash gostSbox (reverseOctets bits)).toNat)

/-- The sum of GOST R 34.11-94 is the only one that can lose a carry. -/
def PCryptoHashType.KeepsCarries : PCryptoHashType → List UInt8 → Prop
  | .GOST, M => GostKeepsCarries M
  | _, _ => True

theorem PCryptoHashType.digest_eq {type : PCryptoHashType} {M : List UInt8} (hM : M ≠ [])
    (h : type.KeepsCarries M) :
    bitString (type.digest M) = type.standard (bitString M) := by
  cases type with
  | MD5 => exact md5Algorithm_implements.digest_eq M
  | SHA1 => exact sha1Algorithm_implements.digest_eq M
  | SHA2_224 => exact sha2_224Algorithm_implements.digest_eq M
  | SHA2_256 => exact sha2_256Algorithm_implements.digest_eq M
  | SHA2_384 => exact sha2_384Algorithm_implements.digest_eq M
  | SHA2_512 => exact sha2_512Algorithm_implements.digest_eq M
  | GOST => exact gost3411Digest_eq hM h

/-! ## Objects -/

section
variable {Context : Type} {f : PHashFuncs Context} {inv : Context → Prop} {hash : PCryptoHash Context}
  {v : HashView} {len : ℕ}

/-- Any calls. -/
theorem run_digestCall_views (hf : f.Sound inv) (calls : List DigestCall) (h : Views f len inv hash v) :
    ∃ rs hash' v', run digestCall calls hash = some (rs, hash') ∧ Views f len inv hash' v' := by
  have hok : Along digestCall (fun _ _ => True) calls hash := .of_forall (fun _ _ => trivial) _ _
  obtain ⟨rs, hash', v', hrun, -, hviews⟩ := simulates (R := fun _ hash v => Views f len inv hash v) hok h
    fun _ _ _ call h _ => digestCall_spec hf h call
  exact ⟨rs, hash', v', hrun, hviews⟩

/-- Updates of an open object. -/
theorem run_updates (hf : f.Sound inv) (h : Views f len inv hash v) (hopen : v.closed = false)
    (updates : List (List UInt8)) :
    ∃ rs hash' v', run digestCall (updates.map .update) hash = some (rs, hash') ∧ Views f len inv hash' v' ∧
      v'.closed = false ∧ v'.updates.flatten = v.updates.flatten ++ updates.flatten ∧
      ∀ data ∈ v'.updates, data ∈ v.updates ∨ data ∈ updates := by
  induction updates generalizing hash v with
  | nil => exact ⟨[], hash, v, rfl, h, hopen, (List.append_nil _).symm, fun _ => .inl⟩
  | cons data updates ih =>
    obtain ⟨hash₁, hupdate, h₁⟩ := digestCall_update hf h data
    have hcall : digestCall (.update data) hash = some (.void, hash₁) := by
      rw [digestCall, hupdate]
      rfl
    by_cases hdata : data = []
    · rw [if_pos (.inl hdata)] at h₁
      obtain ⟨rs, hash', v', hrun, h', hopen', hflatten, hmem⟩ := ih h₁ hopen
      refine ⟨.void :: rs, hash', v', ?_, h', hopen', ?_, ?_⟩
      · rw [List.map_cons, run_cons hcall, hrun]
        rfl
      · rw [hflatten, List.flatten_cons, hdata, List.nil_append]
      · exact fun d hd => (hmem d hd).imp_right (List.mem_cons_of_mem _)
    · rw [if_neg (not_or.2 ⟨hdata, Bool.eq_false_iff.1 hopen⟩)] at h₁
      obtain ⟨rs, hash', v', hrun, h', hopen', hflatten, hmem⟩ := ih h₁ hopen
      refine ⟨.void :: rs, hash', v', ?_, h', hopen', ?_, ?_⟩
      · rw [List.map_cons, run_cons hcall, hrun]
        rfl
      · rw [hflatten, List.flatten_append, List.flatten_singleton, List.flatten_cons, List.append_assoc]
      · intro d hd
        rcases hmem d hd with hd | hd
        · rcases List.mem_append.1 hd with hd | hd
          · exact .inl hd
          · exact .inr (List.mem_singleton.1 hd ▸ List.mem_cons_self)
        · exact .inr (List.mem_cons_of_mem _ hd)

end

theorem length_mdDigest (alg : MdAlgorithm w n) (flag : Bool) (M : List UInt8)
    (h : alg.digestWords flag ≤ n) : (alg.digest flag M).length = alg.digestWords flag * (w / 8) := by
  rw [MdAlgorithm.digest, List.length_take_of_le]
  rw [length_hostBytes]
  exact Nat.mul_le_mul_right _ h

theorem PCryptoHashType.length_digest (type : PCryptoHashType) (M : List UInt8) :
    (type.digest M).length = type.hashLen := by
  cases type with
  | GOST => exact length_hostBytes .little _
  | _ => exact length_mdDigest _ _ M (by decide)

/-- **The life cycle of a hash object**, for every type.  When each update is counted in full, the calls on a
    new object are calls on its view, and what they return is the hash of the concatenated updates: that of the
    standard, for a message whose sum of blocks keeps its carries. -/
theorem pCryptoHash_lifeCycle (host : ByteOrder) (type : PCryptoHashType) (calls : List DigestCall)
    (hcounted : ∀ call ∈ calls, call.Below type.counted) :
    (∃ rs hash v, run digestCall calls (pCryptoHashNew host type) = some (rs, hash) ∧
      SpecRun (lifeSpec type.hashLen fun updates => type.digest updates.flatten) ⟨[], false⟩ calls rs v) ∧
    ∀ M, (type.digest M).length = type.hashLen ∧
      (M ≠ [] → type.KeepsCarries M → bitString (type.digest M) = type.standard (bitString M)) := by
  obtain ⟨inv, hf⟩ := pHashFuncs_sound host type
  refine ⟨?_, fun M => ⟨type.length_digest M, type.digest_eq⟩⟩
  exact run_digestCall_below hf (fun _ => pHashFuncs_digestOf host type) hcounted (pCryptoHashNew_views hf)

theorem pCryptoHash_lifeCycle_abc :
    (∃ rs hash v, run digestCall [.getString, .update [0x61], .update [], .update [0x62, 0x63], .getDigest 15,
        .update [0x64], .getString, .update [0x65], .getDigest 16, .reset, .getDigest 16]
          (pCryptoHashNew .big .MD5) = some (rs, hash) ∧
      SpecRun (lifeSpec 16 fun updates => PCryptoHashType.MD5.digest updates.flatten) ⟨[], false⟩
        [.getString, .update [0x61], .update [], .update [0x62, 0x63], .getDigest 15,
          .update [0x64], .getString, .update [0x65], .getDigest 16, .reset, .getDigest 16] rs v) ∧
    ∀ M, (PCryptoHashType.MD5.digest M).length = 16 ∧ (M ≠ [] → PCryptoHashType.MD5.KeepsCarries M →
      bitString (PCryptoHashType.MD5.digest M) = PCryptoHashType.MD5.standard (bitString M)) :=
  pCryptoHash_lifeCycle .big .MD5 [.getString, .update [0x61], .update [], .update [0x62, 0x63], .getDigest 15,
    .update [0x64], .getString, .update [0x65], .getDigest 16, .reset, .getDigest 16]
    (by simp [DigestCall.Below, PCryptoHashType.counted])

/-- An update of `2 ^ 32` bytes is not counted: its digest is that of blocks which end with the length 0. -/
theorem run_md5_uncounted {data : List UInt8} (hdata : data.length = 2 ^ 32) :
    ∃ hash, run digestCall [.update data, .getDigest 16] (pCryptoHashNew .little .MD5) =
      some ([.void, .digest (md5Algorithm.digestBlocks false (data ++ md5Algorithm.padding 0)) 16], hash) := by
  have hf := mdFuncs_sound .little false md5Algorithm_lawful
  have hne : data ≠ [] := by
    rintro rfl
    cases hdata
  have hcut : data.length % 2 ^ 32 = 0 := by rw [hdata, Nat.mod_self]
  obtain ⟨c₁, hupdate, ha⟩ := mdUpdate_uncounted .little md5Algorithm_lawful (mdNew_absorbed false) hcut
  obtain ⟨c₂, hfinish, hdigest⟩ := mdFinish_uncounted .little md5Algorithm_lawful hcut ha
  have hfeed : (mdFuncs .little false md5Algorithm).feed [data] = some c₁ := by
    rw [PHashFuncs.feed, List.foldlM_cons]
    show (mdUpdate .little md5Algorithm (mdNew md5Algorithm false) data).bind _ = _
    rw [hupdate]
    rfl
  have hviews : Views (pHashFuncs .little .MD5) 16 _ (pCryptoHashNew .little .MD5) ⟨[], false⟩ :=
    pCryptoHashNew_views hf
  obtain ⟨hash, hrun⟩ := run_update_getDigest hf hviews hne
  rw [digestOf_eq hfeed hfinish] at hrun
  exact ⟨hash, hdigest ▸ hrun⟩

/-- **Not every digest is the hash of the message.**  GOST R 34.11-94 loses a carry of the sum of two blocks.
    After one update of `2 ^ 32` bytes, MD5 takes the digest of other blocks, with the padding of the empty
    message. -/
theorem pCryptoHash_lifeCycle_fails :
    ((∃ hash, run digestCall [.update (onesBlock ++ onesBlock), .getDigest 32] (pCryptoHashNew .little .GOST) =
        some ([.void, .digest (gost3411Digest (onesBlock ++ onesBlock)) 32], hash)) ∧
      bitString (gost3411Digest (onesBlock ++ onesBlock)) ≠
        PCryptoHashType.GOST.standard (bitString (onesBlock ++ onesBlock))) ∧
    (∃ hash, run digestCall [.update (List.replicate (2 ^ 32) 0), .getDigest 16] (pCryptoHashNew .little .MD5) =
        some ([.void, .digest (md5Algorithm.digestBlocks false
          (List.replicate (2 ^ 32) 0 ++ md5Algorithm.padding 0)) 16], hash)) ∧
      md5Algorithm.digest false (List.replicate (2 ^ 32) 0) =
        md5Algorithm.digestBlocks false (List.replicate (2 ^ 32) 0 ++ md5Algorithm.padding (2 ^ 32)) ∧
      md5Algorithm.padding 0 ≠ md5Algorithm.padding (2 ^ 32) := by
  refine ⟨⟨?_, ?_⟩, run_md5_uncounted List.length_replicate, ?_, by decide⟩
  · have hf := gostFuncs_sound .little
    have hviews : Views (pHashFuncs .little .GOST) 32 _ (pCryptoHashNew .little .GOST) ⟨[], false⟩ :=
      pCryptoHashNew_views hf
    have hne : onesBlock ++ onesBlock ≠ [] := by decide
    obtain ⟨hash, hrun⟩ := run_update_getDigest hf hviews hne
    rw [gostFuncs_digestOf .little (by decide), List.flatten_singleton] at hrun
    exact ⟨hash, hrun⟩
  · rw [PCryptoHashType.standard]
    dsimp only
    rw [reverseOctets_bitString, hash_onesBlocks, ← bitString_hostBytes, gost3411Digest_onesBlocks]
    intro hsame
    exact onesHash_differs (bitString_injective hsame)
  · rw [MdAlgorithm.digest_eq_blocks, List.length_replicate]

/-- **A hash object computes the hash of its standard.**  Whatever calls were made on it before a reset, and
    however a message is divided into updates behind it, it returns the hash of the bits of the message. -/
theorem pCryptoHash_standard (host : ByteOrder) (type : PCryptoHashType) (calls : List DigestCall)
    (updates : List (List UInt8)) (hcounted : ∀ data ∈ updates, data.length < type.counted)
    (hne : updates.flatten ≠ []) (hkeeps : type.KeepsCarries updates.flatten) :
    ∃ digest : List UInt8, bitString digest = type.standard (bitString updates.flatten) ∧
      digest.length = type.hashLen ∧
      ∃ rs hash, run digestCall (calls ++ .reset :: updates.map .update) (pCryptoHashNew host type) =
          some (rs, hash) ∧
        (∃ hash', digestCall .getString hash = some (.string (some (lowerHex digest)), hash')) ∧
        ∀ cap, type.hashLen ≤ cap →
          ∃ hash', digestCall (.getDigest cap) hash = some (.digest digest type.hashLen, hash') := by
  obtain ⟨inv, hf⟩ := pHashFuncs_sound host type
  obtain ⟨rs₁, hash₁, v₁, hrun₁, h₁⟩ := run_digestCall_views hf calls (pCryptoHashNew_views hf)
  obtain ⟨r, hash₂, v₂, hcall, ⟨-, rfl⟩, h₂⟩ := digestCall_spec hf h₁ .reset
  obtain ⟨rs₃, hash, v, hrun₃, h, hopen, hflatten, hmem⟩ := run_updates hf h₂ rfl updates
  have hdigest : (pHashFuncs host type).digestOf type.hashLen v.updates = type.digest updates.flatten := by
    rw [pHashFuncs_digestOf host type fun data hd => hcounted data ((hmem data hd).resolve_left (by simp)),
      hflatten]
    rfl
  have hupdates : v.updates ≠ [] := by
    intro hnil
    rw [hnil] at hflatten
    exact hne hflatten.symm
  refine ⟨type.digest updates.flatten, type.digest_eq hne hkeeps, ?_, rs₁ ++ r :: rs₃, hash, ?_, ?_, ?_⟩
  · rw [← hdigest]
    exact length_digestOf hf (hashLen_le host type) v.updates
  · refine run_append hrun₁ ?_
    rw [run_cons hcall, hrun₃]
    rfl
  · obtain ⟨r', hash', v', hcall', hspec, -⟩ := digestCall_spec hf h .getString
    rw [lifeSpec, if_neg hupdates, hdigest] at hspec
    obtain ⟨rfl, -⟩ := hspec
    exact ⟨hash', hcall'⟩
  · intro cap hcap
    obtain ⟨r', hash', v', hcall', hspec, -⟩ := digestCall_spec hf h (.getDigest cap)
    rw [lifeSpec, if_neg (not_or.2 ⟨hupdates, Nat.not_lt.2 hcap⟩), hdigest] at hspec
    obtain ⟨rfl, -⟩ := hspec
    exact ⟨hash', hcall'⟩

/-- GOST R 34.11-94 of `abc`, in two updates of an object that has been used before. -/
theorem pCryptoHash_standard_abc :
    ∃ digest : List UInt8, bitString digest = PCryptoHashType.GOST.standard (bitString [0x61, 0x62, 0x63]) ∧
      digest.length = 32 ∧
      ∃ rs hash, run digestCall ([.update [0x7A], .getString] ++ .reset :: [.update [0x61], .update [0x62, 0x63]])
          (pCryptoHashNew .little .GOST) = some (rs, hash) ∧
        (∃ hash', digestCall .getString hash = some (.string (some (lowerHex digest)), hash')) ∧
        ∀ cap, 32 ≤ cap → ∃ hash', digestCall (.getDigest cap) hash = some (.digest digest 32, hash') := by
  have hkeeps : GostKeepsCarries [0x61, 0x62, 0x63] := by
    rintro k hk ⟨i, -, hones, -⟩
    obtain rfl : k = 0 := by
      rw [List.length_cons, List.length_cons, List.length_singleton] at hk
      omega
    rw [gost3411Total, Finset.sum_range_zero, Nat.zero_mod, WordSum.wordAt, Nat.zero_div] at hones
    cases hones
  exact pCryptoHash_standard .little .GOST [.update [0x7A], .getString] [[0x61], [0x62, 0x63]]
    (by decide) (by decide) hkeeps

end Plibsys
