/-
  Socket addresses and the address structures of the system (`psocketaddress.c`).

  A `sockaddr_in` has 16 bytes and a `sockaddr_in6` has 28, as on Linux: the family in the byte order of the host,
  the port and the address in network order.  An address that has been made keeps the zeros of `p_malloc0` in what
  its family does not use.
-/
import Mathlib.Tactic.IntervalCases
import Plibsys.Lib.Bytes
import Plibsys.Types

namespace Plibsys.Net

open Bytes

abbrev puint16 := BitVec 16

/-! ## Memory -/

/-- The bytes at a pointer. -/
abbrev Memory := ℕ → UInt8

def load (mem : Memory) (off n : ℕ) : List UInt8 := (List.range n).map fun i => mem (off + i)

def store (mem : Memory) (off : ℕ) (src : List UInt8) : Memory :=
  fun i => if off ≤ i then src.getD (i - off) (mem i) else mem i

section
variable {mem : Memory} {off off' n i : ℕ} {src : List UInt8}

@[simp] theorem length_load : (load mem off n).length = n := by
  rw [load, List.length_map, List.length_range]

theorem store_apply (h : off ≤ i) : store mem off src i = src.getD (i - off) (mem i) := if_pos h

theorem store_of_lt (h : i < off) : store mem off src i = mem i := if_neg (Nat.not_le.2 h)

theorem store_of_ge (h : off + src.length ≤ i) : store mem off src i = mem i := by
  rw [store, if_pos (by omega), List.getD_eq_default _ _ (by omega)]

theorem load_store (hn : src.length = n) : load (store mem off src) off n = src := by
  subst hn
  refine List.ext_getElem length_load fun i hi hsrc => ?_
  simp only [load, List.getElem_map, List.getElem_range]
  rw [store, if_pos (Nat.le_add_right off i), Nat.add_sub_cancel_left, List.getD_eq_getElem _ _ hsrc]

/-- What is stored elsewhere does not matter. -/
theorem load_store_of_disjoint (h : off' + n ≤ off ∨ off + src.length ≤ off') :
    load (store mem off src) off' n = load mem off' n := by
  refine List.map_congr_left fun i hi => ?_
  have hlt := List.mem_range.1 hi
  rcases h with h | h
  · exact store_of_lt (by omega)
  · exact store_of_ge (by omega)

theorem load_add (mem : Memory) (off n m : ℕ) : load mem off (n + m) = load mem off n ++ load mem (off + n) m := by
  rw [load, List.range_add, List.map_append, List.map_map, load, load]
  congr 2
  funext i
  rw [Function.comp_apply, Nat.add_assoc]

/-- Two parts next to each other. -/
theorem store_append (mem : Memory) (off : ℕ) (xs ys : List UInt8) :
    store mem off (xs ++ ys) = store (store mem off xs) (off + xs.length) ys := by
  funext i
  rcases Nat.lt_or_ge i (off + xs.length) with hi | hi
  · have hrest : store (store mem off xs) (off + xs.length) ys i = store mem off xs i := store_of_lt hi
    rw [hrest]
    rcases Nat.lt_or_ge i off with hoff | hoff
    · rw [store_of_lt hoff, store_of_lt hoff]
    · rw [store_apply hoff, store_apply hoff, List.getD_append _ _ _ _ (by omega)]
  · have hfirst : store mem off xs i = mem i := store_of_ge hi
    rw [store_apply hi, store_apply (by omega), hfirst, List.getD_append_right _ _ _ _ (by omega), Nat.sub_sub]

/-- Two parts that do not meet are stored in any order. -/
theorem store_comm {src' : List UInt8} (h : off + src.length ≤ off') :
    store (store mem off' src') off src = store (store mem off src) off' src' := by
  funext i
  rcases Nat.lt_or_ge i off' with hi | hi
  · have hother : store (store mem off src) off' src' i = store mem off src i := store_of_lt hi
    have hmem : store mem off' src' i = mem i := store_of_lt hi
    rw [hother]
    rcases Nat.lt_or_ge i off with hoff | hoff
    · rw [store_of_lt hoff, store_of_lt hoff, hmem]
    · rw [store_apply hoff, store_apply hoff, hmem]
  · have hother : store (store mem off' src') off src i = store mem off' src' i := store_of_ge (by omega)
    have hmem : store mem off src i = mem i := store_of_ge (by omega)
    rw [hother, store_apply hi, store_apply hi, hmem]

/-- A part of what has been stored. -/
theorem load_part (xs ys zs : List UInt8) (hsrc : src = xs ++ (ys ++ zs)) (hoff : xs.length = off)
    (hn : ys.length = n) :
    load (store mem 0 src) off n = ys := by
  subst hsrc hoff hn
  rw [store_append, store_append, Nat.zero_add, load_store_of_disjoint (.inl (Nat.le_refl _)), load_store rfl]

end

/-! ## Addresses -/

inductive PSocketFamily where
  | unknown
  | inet
  | inet6
  deriving DecidableEq, Repr

def AF_INET : puint16 := 2

def AF_INET6 : puint16 := 10

/-- `addr` has the 16 bytes of the union; an IPv4 address has the first four of them. -/
@[ext]
structure PSocketAddress where
  family : PSocketFamily
  addr : List UInt8
  port : puint16
  flowinfo : puint32
  scope_id : puint32
  length_addr : addr.length = 16
  family_ne : family ≠ .unknown
  unused : family = .inet → addr.drop 4 = List.replicate 12 0 ∧ flowinfo = 0 ∧ scope_id = 0

section
variable (host : ByteOrder)

/-- `PUINT16_SWAP_BYTES`. -/
def puint16SwapBytes (val : puint16) : puint16 := val >>> 8 ||| val <<< 8

/-- `p_htons`, and `p_ntohs`. -/
def pHtons (val : puint16) : puint16 := if host = .little then puint16SwapBytes val else val

def pNtohs (val : puint16) : puint16 := pHtons host val

/-- The structure at `native` is said to have `len` bytes. -/
def pSocketAddressNewFromNative (native : Memory) (len : psize) : Option PSocketAddress :=
  if len = 0 then none
  else
    let family := word host 16 (load native 0 2)
    let port := pNtohs host (word host 16 (load native 2 2))
    if family = AF_INET then
      if len < 16 then none
      else some {
        family := .inet
        addr := load native 4 4 ++ List.replicate 12 0
        port := port
        flowinfo := 0
        scope_id := 0
        length_addr := by rw [List.length_append, length_load, List.length_replicate]
        family_ne := by decide
        unused := fun _ => ⟨List.drop_left' length_load, rfl, rfl⟩ }
    else if family = AF_INET6 then
      if len < 28 then none
      else some {
        family := .inet6
        addr := load native 8 16
        port := port
        flowinfo := word host 32 (load native 4 4)
        scope_id := word host 32 (load native 24 4)
        length_addr := length_load
        family_ne := by decide
        unused := fun h => by cases h }
    else none

/-- The result and the bytes at `dest`. -/
def pSocketAddressToNative (addr : PSocketAddress) (dest : Memory) (destlen : psize) : Bool × Memory :=
  if destlen = 0 then (false, dest)
  else
    match addr.family with
    | .inet =>
      if destlen < 16 then (false, dest)
      else
        let dest := store dest 4 (addr.addr.take 4)
        let dest := store dest 0 (bytes host AF_INET)
        let dest := store dest 2 (bytes host (pHtons host addr.port))
        (true, store dest 8 (List.replicate 8 0))
    | .inet6 =>
      if destlen < 28 then (false, dest)
      else
        let dest := store dest 8 addr.addr
        let dest := store dest 0 (bytes host AF_INET6)
        let dest := store dest 2 (bytes host (pHtons host addr.port))
        let dest := store dest 4 (bytes host addr.flowinfo)
        (true, store dest 24 (bytes host addr.scope_id))
    | .unknown => (false, dest)

end

def pSocketAddressGetNativeSize (addr : PSocketAddress) : psize :=
  match addr.family with
  | .inet => 16
  | .inet6 => 28
  | .unknown => 0

/-- `p_socket_address_new_any` and `p_socket_address_new_loopback` with their addresses. -/
def newFixed (addr4 addr6 : List UInt8) (h4 : addr4.length = 4) (h6 : addr6.length = 16) (family : PSocketFamily)
    (port : puint16) : Option PSocketAddress :=
  match family with
  | .inet => some {
      family := .inet
      addr := addr4 ++ List.replicate 12 0
      port := port
      flowinfo := 0
      scope_id := 0
      length_addr := by rw [List.length_append, h4, List.length_replicate]
      family_ne := by decide
      unused := fun _ => ⟨List.drop_left' h4, rfl, rfl⟩ }
  | .inet6 => some {
      family := .inet6
      addr := addr6
      port := port
      flowinfo := 0
      scope_id := 0
      length_addr := h6
      family_ne := by decide
      unused := fun h => by cases h }
  | .unknown => none

def pSocketAddressNewAny : PSocketFamily → puint16 → Option PSocketAddress :=
  newFixed [0, 0, 0, 0] (List.replicate 16 0) rfl rfl

def pSocketAddressNewLoopback : PSocketFamily → puint16 → Option PSocketAddress :=
  newFixed [127, 0, 0, 0] (List.replicate 15 0 ++ [1]) rfl rfl

def pSocketAddressGetFlowInfo (addr : PSocketAddress) : puint32 :=
  if addr.family ≠ .inet6 then 0 else addr.flowinfo

def pSocketAddressGetScopeId (addr : PSocketAddress) : puint32 := if addr.family ≠ .inet6 then 0 else addr.scope_id

def pSocketAddressSetFlowInfo (addr : PSocketAddress) (flowinfo : puint32) : PSocketAddress :=
  if h : addr.family ≠ .inet6 then addr
  else { addr with flowinfo := flowinfo, unused := fun h' => by rw [h'] at h; exact absurd (by decide) h }

def pSocketAddressSetScopeId (addr : PSocketAddress) (scope_id : puint32) : PSocketAddress :=
  if h : addr.family ≠ .inet6 then addr
  else { addr with scope_id := scope_id, unused := fun h' => by rw [h'] at h; exact absurd (by decide) h }

section
variable (host : ByteOrder)

/-- `PUINT32_SWAP_BYTES`. -/
def puint32SwapBytes (val : puint32) : puint32 :=
  val >>> 24 ||| val <<< 8 &&& 0x00FF0000 ||| val >>> 8 &&& 0x0000FF00 ||| val <<< 24

/-- `p_ntohl`. -/
def pNtohl (val : puint32) : puint32 := if host = .little then puint32SwapBytes val else val

/-- The bytes of `INADDR_ANY` and of `in6addr_any` are zeros. -/
def pSocketAddressIsAny (addr : PSocketAddress) : Bool :=
  match addr.family with
  | .unknown => false
  | .inet => pNtohl host (word host 32 (addr.addr.take 4)) = 0
  | .inet6 => addr.addr = List.replicate 16 0

def pSocketAddressIsLoopback (addr : PSocketAddress) : Bool :=
  match addr.family with
  | .unknown => false
  | .inet => pNtohl host (word host 32 (addr.addr.take 4)) &&& 0xff000000 = 0x7f000000
  | .inet6 => addr.addr = List.replicate 15 0 ++ [1]

end

/-! ## The native structure -/

section
variable (host : ByteOrder)

/-- The bytes of the native structure of an address. -/
def layout (addr : PSocketAddress) : List UInt8 :=
  match addr.family with
  | .inet => bytes host AF_INET ++ bytes .big addr.port ++ addr.addr.take 4 ++ List.replicate 8 0
  | .inet6 => bytes host AF_INET6 ++ bytes .big addr.port ++ bytes host addr.flowinfo ++ addr.addr ++
      bytes host addr.scope_id
  | .unknown => []

variable {host} {a : PSocketAddress} {native dest : Memory} {len destlen : psize} {v : puint16}

theorem puint16SwapBytes_eq (val : puint16) : puint16SwapBytes val = reverseBytes val := by
  refine BitVec.eq_of_getLsbD_eq fun i hi => ?_
  rw [getLsbD_reverseBytes (by decide) val hi, puint16SwapBytes]
  interval_cases i <;> simp

theorem bytes_pHtons : bytes host (pHtons host v) = bytes .big v := by
  cases host with
  | big => rfl
  | little =>
    rw [pHtons, if_pos rfl, puint16SwapBytes_eq]
    exact bytes_reverseBytes (by decide) v (by decide)

theorem pNtohs_word {bs : List UInt8} (hbs : bs.length = 2) : pNtohs host (word host 16 bs) = word .big 16 bs := by
  cases host with
  | big => rfl
  | little =>
    rw [pNtohs, pHtons, if_pos rfl, puint16SwapBytes_eq]
    exact reverseBytes_word (by decide) hbs (by decide)

theorem length_layout (host : ByteOrder) (a : PSocketAddress) :
    (layout host a).length = (pSocketAddressGetNativeSize a).toNat := by
  have haddr := a.length_addr
  have hne := a.family_ne
  rw [layout, pSocketAddressGetNativeSize]
  cases hfamily : a.family with
  | unknown => exact absurd hfamily hne
  | inet =>
    simp only [List.length_append, length_bytes, List.length_take, haddr, List.length_replicate]
    rfl
  | inet6 =>
    simp only [List.length_append, length_bytes, haddr]
    rfl

/-- **The structure is written whole**, or not at all. -/
theorem pSocketAddressToNative_eq (a : PSocketAddress) (dest : Memory) (destlen : psize) :
    pSocketAddressToNative host a dest destlen =
      if pSocketAddressGetNativeSize a ≤ destlen then (true, store dest 0 (layout host a)) else (false, dest) := by
  have haddr := a.length_addr
  have hne := a.family_ne
  rw [pSocketAddressToNative, pSocketAddressGetNativeSize, layout]
  cases hfamily : a.family with
  | unknown => exact absurd hfamily hne
  | inet =>
    have hfour : (a.addr.take 4).length = 4 := by rw [List.length_take, haddr]; rfl
    have hstored : store dest 0 (bytes host AF_INET ++ bytes .big a.port ++ a.addr.take 4 ++ List.replicate 8 0) =
        store (store (store (store dest 4 (a.addr.take 4)) 0 (bytes host AF_INET)) 2
          (bytes host (pHtons host a.port))) 8 (List.replicate 8 0) := by
      have hfamily : store (store dest 4 (a.addr.take 4)) 0 (bytes host AF_INET) =
          store (store dest 0 (bytes host AF_INET)) 4 (a.addr.take 4) := store_comm (by rw [length_bytes]; decide)
      have hport : store (store (store dest 0 (bytes host AF_INET)) 4 (a.addr.take 4)) 2 (bytes .big a.port) =
          store (store (store dest 0 (bytes host AF_INET)) 2 (bytes .big a.port)) 4 (a.addr.take 4) :=
        store_comm (by rw [length_bytes])
      rw [bytes_pHtons, hfamily, hport]
      simp only [store_append, List.length_append, length_bytes, hfour]
    dsimp only
    rw [hstored]
    by_cases hzero : destlen = 0
    · subst hzero
      rfl
    · rw [if_neg hzero]
      by_cases hlt : destlen < 16
      · rw [if_pos hlt, if_neg (UInt64.not_le.2 hlt)]
      · rw [if_neg hlt, if_pos (UInt64.not_lt.1 hlt)]
  | inet6 =>
    have hstored : store dest 0 (bytes host AF_INET6 ++ bytes .big a.port ++ bytes host a.flowinfo ++ a.addr ++
          bytes host a.scope_id) =
        store (store (store (store (store dest 8 a.addr) 0 (bytes host AF_INET6)) 2
          (bytes host (pHtons host a.port))) 4 (bytes host a.flowinfo)) 24 (bytes host a.scope_id) := by
      have hmoved : ∀ {mem : Memory} {off : ℕ} {src : List UInt8}, off + src.length ≤ 8 →
          store (store mem 8 a.addr) off src = store (store mem off src) 8 a.addr := store_comm
      rw [bytes_pHtons, hmoved (by rw [length_bytes]; decide), hmoved (by rw [length_bytes]; decide),
        hmoved (by rw [length_bytes])]
      simp only [store_append, List.length_append, length_bytes, haddr]
    dsimp only
    rw [hstored]
    by_cases hzero : destlen = 0
    · subst hzero
      rfl
    · rw [if_neg hzero]
      by_cases hlt : destlen < 28
      · rw [if_pos hlt, if_neg (UInt64.not_le.2 hlt)]
      · rw [if_neg hlt, if_pos (UInt64.not_lt.1 hlt)]

theorem newFromNative_layout (a : PSocketAddress) (dest : Memory) (hlen : pSocketAddressGetNativeSize a ≤ len) :
    pSocketAddressNewFromNative host (store dest 0 (layout host a)) len = some a := by
  have haddr := a.length_addr
  have hne := a.family_ne
  have hport : pNtohs host (word host 16 (bytes .big a.port)) = a.port :=
    (pNtohs_word (by rw [length_bytes])).trans (word_bytes (by decide) _)
  rw [pSocketAddressGetNativeSize] at hlen
  cases hfamily : a.family with
  | unknown => exact absurd hfamily hne
  | inet =>
    simp only [hfamily] at hlen
    obtain ⟨hunused, hflowinfo, hscope⟩ := a.unused hfamily
    have hfour : (a.addr.take 4).length = 4 := by rw [List.length_take, haddr]; rfl
    have hlayout : layout host a =
        bytes host AF_INET ++ (bytes .big a.port ++ (a.addr.take 4 ++ List.replicate 8 0)) := by
      simp only [layout, hfamily, List.append_assoc]
    have hload₀ : load (store dest 0 (layout host a)) 0 2 = bytes host AF_INET :=
      load_part [] _ _ hlayout rfl length_bytes
    have hload₂ : load (store dest 0 (layout host a)) 2 2 = bytes .big a.port :=
      load_part _ _ _ hlayout length_bytes length_bytes
    have hload₄ : load (store dest 0 (layout host a)) 4 4 = a.addr.take 4 :=
      load_part _ _ _ (hlayout.trans (List.append_assoc ..).symm) (by simp) hfour
    have hpos : len ≠ 0 := by
      rintro rfl
      exact absurd hlen (by decide)
    rw [pSocketAddressNewFromNative, if_neg hpos]
    simp only [hload₀, hload₂, hload₄, word_bytes (by decide : 8 ∣ 16) AF_INET, if_true,
      if_neg (UInt64.not_lt.2 hlen),
      hport, Option.some_inj]
    refine PSocketAddress.ext hfamily.symm ?_ rfl hflowinfo.symm hscope.symm
    exact (congrArg (a.addr.take 4 ++ ·) hunused.symm).trans (List.take_append_drop ..)
  | inet6 =>
    simp only [hfamily] at hlen
    have hlayout : layout host a = bytes host AF_INET6 ++
        (bytes .big a.port ++ (bytes host a.flowinfo ++ (a.addr ++ (bytes host a.scope_id ++ [])))) := by
      simp only [layout, hfamily, List.append_assoc, List.append_nil]
    have hload₀ : load (store dest 0 (layout host a)) 0 2 = bytes host AF_INET6 :=
      load_part [] _ _ hlayout rfl length_bytes
    have hload₂ : load (store dest 0 (layout host a)) 2 2 = bytes .big a.port :=
      load_part _ _ _ hlayout length_bytes length_bytes
    have hload₄ : load (store dest 0 (layout host a)) 4 4 = bytes host a.flowinfo :=
      load_part _ _ _ (hlayout.trans (List.append_assoc ..).symm) (by simp) length_bytes
    have hload₈ : load (store dest 0 (layout host a)) 8 16 = a.addr := by
      refine load_part (bytes host AF_INET6 ++ (bytes .big a.port ++ bytes host a.flowinfo)) _
        (bytes host a.scope_id ++ []) ?_
        (by simp) haddr
      rw [hlayout, List.append_assoc, List.append_assoc]
    have hload₂₄ : load (store dest 0 (layout host a)) 24 4 = bytes host a.scope_id := by
      refine load_part (bytes host AF_INET6 ++ (bytes .big a.port ++ (bytes host a.flowinfo ++ a.addr))) _ [] ?_
        (by simp [haddr]) length_bytes
      rw [hlayout, List.append_assoc, List.append_assoc, List.append_assoc]
    have hpos : len ≠ 0 := by
      rintro rfl
      exact absurd hlen (by decide)
    rw [pSocketAddressNewFromNative, if_neg hpos]
    simp only [hload₀, hload₂, hload₄, hload₈, hload₂₄, word_bytes (by decide : 8 ∣ 16) AF_INET6,
      if_neg (by decide : AF_INET6 ≠ AF_INET), if_true, if_neg (UInt64.not_lt.2 hlen), hport, Option.some_inj]
    exact PSocketAddress.ext hfamily.symm rfl rfl (word_bytes (by decide) _) (word_bytes (by decide) _)

/-- What has been read of a native structure: all but `sin_zero`. -/
theorem layout_newFromNative (h : pSocketAddressNewFromNative host native len = some a) :
    pSocketAddressGetNativeSize a ≤ len ∧
      ∀ n, n = (if a.family = .inet then 8 else 28) → (layout host a).take n = load native 0 n := by
  have hfamily : bytes host (word host 16 (load native 0 2)) = load native 0 2 :=
    bytes_word (by decide) length_load
  have hport : bytes .big (pNtohs host (word host 16 (load native 2 2))) = load native 2 2 := by
    rw [pNtohs_word length_load, bytes_word (by decide) length_load]
  rw [pSocketAddressNewFromNative] at h
  dsimp only at h
  split_ifs at h with hpos hinet hlt hinet6 hlt
  · obtain rfl := Option.some.inj h
    refine ⟨UInt64.not_lt.1 hlt, fun n hn => ?_⟩
    have hn : n = 8 := hn
    have hfour : (load native 4 4 ++ List.replicate 12 0).take 4 = load native 4 4 := List.take_left' length_load
    rw [hn, layout]
    dsimp only
    rw [← hinet, hfamily, hport, hfour, ← load_add native 0 2 2, ← load_add native 0 4 4,
      List.take_left' length_load]
  · obtain rfl := Option.some.inj h
    refine ⟨UInt64.not_lt.1 hlt, fun n hn => ?_⟩
    have hn : n = 28 := hn
    have hbytes : ∀ off, bytes host (word host 32 (load native off 4)) = load native off 4 := fun off =>
      bytes_word (by decide) length_load
    rw [hn, layout]
    dsimp only
    rw [← hinet6, hfamily, hport, hbytes, hbytes, ← load_add native 0 2 2, ← load_add native 0 4 4,
      ← load_add native 0 8 16, ← load_add native 0 24 4, List.take_of_length_le (Nat.le_of_eq length_load)]

/-! ## Addresses that are made and changed -/

theorem puint32SwapBytes_eq (val : puint32) : puint32SwapBytes val = reverseBytes val := by
  refine BitVec.eq_of_getLsbD_eq fun i hi => ?_
  rw [getLsbD_reverseBytes (by decide) val hi, puint32SwapBytes]
  interval_cases i <;> simp

theorem pNtohl_word {bs : List UInt8} (hbs : bs.length = 4) : pNtohl host (word host 32 bs) = word .big 32 bs := by
  cases host with
  | big => rfl
  | little =>
    rw [pNtohl, if_pos rfl, puint32SwapBytes_eq]
    exact reverseBytes_word (by decide) hbs (by decide)

/-- The four bytes of an IPv4 address. -/
theorem pNtohl_eq {b₀ b₁ b₂ b₃ : UInt8} (h : a.addr.take 4 = [b₀, b₁, b₂, b₃]) :
    pNtohl host (word host 32 (a.addr.take 4)) = word .big 32 [b₀, b₁, b₂, b₃] := by
  rw [h]
  exact pNtohl_word rfl

variable {family : PSocketFamily} {port : puint16} {addr4 addr6 : List UInt8} {h4 : addr4.length = 4}
  {h6 : addr6.length = 16}

/-- An address is made for IPv4 and for IPv6, with nothing in it but the constant address and the port. -/
theorem newFixed_eq_some (h : newFixed addr4 addr6 h4 h6 family port = some a) :
    a.family = family ∧ a.port = port ∧ a.flowinfo = 0 ∧ a.scope_id = 0 ∧
      (family = .inet → a.addr.take 4 = addr4) ∧ (family = .inet6 → a.addr = addr6) := by
  cases family with
  | unknown => cases h
  | inet =>
    obtain rfl := Option.some.inj h
    refine ⟨rfl, rfl, rfl, rfl, fun _ => List.take_left' h4, fun heq => ?_⟩
    cases heq
  | inet6 =>
    obtain rfl := Option.some.inj h
    refine ⟨rfl, rfl, rfl, rfl, fun heq => ?_, fun _ => rfl⟩
    cases heq

/-- Only an unknown family has no such address. -/
theorem newFixed_eq_none : newFixed addr4 addr6 h4 h6 family port = none ↔ family = .unknown := by
  cases family <;> simp [newFixed]

/-- The address of any interface is one, on every host, and it is not a loopback address. -/
theorem isAny_newAny (h : pSocketAddressNewAny family port = some a) :
    pSocketAddressIsAny host a = true ∧ pSocketAddressIsLoopback host a = false := by
  obtain ⟨hfamily, -, -, -, hinet, hinet6⟩ := newFixed_eq_some h
  have hne := a.family_ne
  rw [pSocketAddressIsAny, pSocketAddressIsLoopback, hfamily]
  cases family with
  | unknown => exact absurd hfamily hne
  | inet =>
    dsimp only
    rw [pNtohl_eq (hinet rfl)]
    decide
  | inet6 =>
    dsimp only
    rw [hinet6 rfl]
    decide

/-- The loopback address is one, on every host, and it is not that of any interface. -/
theorem isLoopback_newLoopback (h : pSocketAddressNewLoopback family port = some a) :
    pSocketAddressIsLoopback host a = true ∧ pSocketAddressIsAny host a = false := by
  obtain ⟨hfamily, -, -, -, hinet, hinet6⟩ := newFixed_eq_some h
  have hne := a.family_ne
  rw [pSocketAddressIsAny, pSocketAddressIsLoopback, hfamily]
  cases family with
  | unknown => exact absurd hfamily hne
  | inet =>
    dsimp only
    rw [pNtohl_eq (hinet rfl)]
    decide
  | inet6 =>
    dsimp only
    rw [hinet6 rfl]
    decide

/-- The flow info that is set is the one that is got, and four bytes of an IPv6 structure; an IPv4 address
    stays. -/
theorem layout_setFlowInfo (host : ByteOrder) (a : PSocketAddress) (flowinfo : puint32) :
    pSocketAddressGetFlowInfo (pSocketAddressSetFlowInfo a flowinfo) =
      (if a.family = .inet6 then flowinfo else 0) ∧
      layout host (pSocketAddressSetFlowInfo a flowinfo) = if a.family = .inet6 then
        (layout host a).take 4 ++ bytes host flowinfo ++ (layout host a).drop 8 else layout host a := by
  by_cases hfamily : a.family = .inet6
  · have hlayout : layout host a = (bytes host AF_INET6 ++ bytes .big a.port) ++ bytes host a.flowinfo ++
        (a.addr ++ bytes host a.scope_id) := by
      simp only [layout, hfamily, List.append_assoc]
    rw [pSocketAddressSetFlowInfo, dif_neg (not_not_intro hfamily), if_pos hfamily, if_pos hfamily]
    constructor
    · exact if_neg (not_not_intro hfamily)
    · rw [hlayout, List.drop_left' (by simp), List.append_assoc _ (bytes host a.flowinfo),
        List.take_left' (by simp)]
      simp only [layout, hfamily, List.append_assoc]
  · rw [pSocketAddressSetFlowInfo, dif_pos hfamily, if_neg hfamily, if_neg hfamily]
    exact ⟨if_pos hfamily, rfl⟩

/-- The scope is the last four bytes of an IPv6 structure. -/
theorem layout_setScopeId (host : ByteOrder) (a : PSocketAddress) (scope_id : puint32) :
    pSocketAddressGetScopeId (pSocketAddressSetScopeId a scope_id) = (if a.family = .inet6 then scope_id else 0) ∧
      layout host (pSocketAddressSetScopeId a scope_id) = if a.family = .inet6 then
        (layout host a).take 24 ++ bytes host scope_id else layout host a := by
  by_cases hfamily : a.family = .inet6
  · have haddr := a.length_addr
    have hlayout : layout host a = (bytes host AF_INET6 ++ bytes .big a.port ++ bytes host a.flowinfo ++ a.addr) ++
        bytes host a.scope_id := by
      simp only [layout, hfamily]
    rw [pSocketAddressSetScopeId, dif_neg (not_not_intro hfamily), if_pos hfamily, if_pos hfamily]
    constructor
    · exact if_neg (not_not_intro hfamily)
    · rw [hlayout, List.take_left' (by simp [haddr])]
      simp only [layout, hfamily]
  · rw [pSocketAddressSetScopeId, dif_pos hfamily, if_neg hfamily, if_neg hfamily]
    exact ⟨if_pos hfamily, rfl⟩

end

/-- **Addresses and native structures.**  `p_socket_address_to_native` stores the structure of the address, or
    nothing if it does not fit; reading it gives the same address again.  What is read from any structure of the
    system is an address whose structure is the same again, up to `sin_zero`. -/
theorem pSocketAddress_native (host : ByteOrder) :
    (∀ a dest destlen, pSocketAddressToNative host a dest destlen =
      if pSocketAddressGetNativeSize a ≤ destlen then (true, store dest 0 (layout host a)) else (false, dest)) ∧
    (∀ a, (layout host a).length = (pSocketAddressGetNativeSize a).toNat) ∧
    (∀ a dest len, pSocketAddressGetNativeSize a ≤ len →
      pSocketAddressNewFromNative host (store dest 0 (layout host a)) len = some a) ∧
    ∀ native len a, pSocketAddressNewFromNative host native len = some a → pSocketAddressGetNativeSize a ≤ len ∧
      ∀ n, n = (if a.family = .inet then 8 else 28) → (layout host a).take n = load native 0 n := by
  refine ⟨pSocketAddressToNative_eq, length_layout host, fun a dest len => newFromNative_layout a dest,
    fun native len a => layout_newFromNative⟩

end Plibsys.Net
