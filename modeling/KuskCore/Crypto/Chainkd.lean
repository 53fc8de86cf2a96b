import Mathlib

/-!
# Chain key derivation

`crypto/ed25519/chainkd/chainkd.go`: extended keys of 64 bytes, a scalar or an encoded point and
then a chain code, derived along a path of selectors. A hardened child and a root key have their
scalar pruned by `pruneRootScalar` (`scalarValue_pruneRootScalar`: between `2^254` and
`2^254 + 2^253`); a non-hardened child adds to the parent's scalar, with a hand-unrolled carry
chain over 32 little-endian bytes (`addScalars`), an HMAC scalar pruned by
`pruneIntermediateScalar` (below `2^233`), and the public side adds the matching point.

HMAC-SHA512 is a function of key and message with 64 bytes out (`Hmac`). `ecmath` is an additive
group with a base point (`Curve`): `ScMulBase` is `k • B` on scalars below `2^255`, and decoding
an encoded point gives it back. Along a path of fewer than `2^20` selectors the scalar stays below
`2^255`, so the carry chain never overflows and taking the public key commutes with derivation
(`derive_xpub`).
-/

namespace KuskCore.Chainkd

/-- `XPrv`: a scalar of 32 bytes, then a chain code of 32. -/
structure XPrv where
  bytes : List UInt8
  length_bytes : bytes.length = 64

/-- `XPub`: an encoded point of 32 bytes, then a chain code of 32. -/
structure XPub where
  bytes : List UInt8
  length_bytes : bytes.length = 64

@[ext] theorem XPrv.ext {a b : XPrv} (h : a.bytes = b.bytes) : a = b := by
  cases a
  cases b
  subst h
  rfl

@[ext] theorem XPub.ext {a b : XPub} (h : a.bytes = b.bytes) : a = b := by
  cases a
  cases b
  subst h
  rfl

/-- `hmac.New(sha512.New, key)`, written a message and summed: 64 bytes. -/
structure Hmac where
  sum : List UInt8 → List UInt8 → List UInt8
  length_sum : ∀ key message, (sum key message).length = 64

/-- The integer of a little-endian scalar, as `ecmath.Scalar` reads its 32 bytes. -/
def scalarValue (s : List UInt8) : Nat := Nat.ofDigits 256 (s.map UInt8.toNat)

/-- `ecmath.Point` over the group `G`: `ScMulBase` multiplies the base point by a scalar below
`2^255`, and `Decode` reads back what `Encode` wrote. -/
structure Curve (G : Type) [AddCommGroup G] where
  base : G
  scMulBase : List UInt8 → G
  scMulBase_eq : ∀ s, s.length = 32 → scalarValue s < 2 ^ 255 →
    scMulBase s = scalarValue s • base
  encode : G → List UInt8
  length_encode : ∀ P, (encode P).length = 32
  decode : List UInt8 → Option G
  decode_encode : ∀ P, decode (encode P) = some P

/-- `pruneRootScalar` of the slice `s`: the low three bits and the top three bits cleared, then
the second highest bit set. -/
def pruneRootScalar (s : List UInt8) : List UInt8 :=
  (s.modify 0 (· &&& 248)).modify 31 fun b => (b &&& 31) ||| 64

/-- `pruneIntermediateScalar` of the slice `f`: the low three bits and the top 23 bits cleared. -/
def pruneIntermediateScalar (f : List UInt8) : List UInt8 :=
  ((((f.modify 0 (· &&& 248)).modify 29 (· &&& 1)).set 30 0).set 31 0)

/-- The unrolled carry chain of `nonhardenedChild`: each byte of the sum is `byte(sum & 0xff)`
of `sum = int(xprv[i]) + int(res[i]) + (sum >> 8)`; the last `sum` comes out as well. -/
def addScalars : List UInt8 → List UInt8 → Nat → List UInt8 × Nat
  | x :: xs, r :: rs, sum =>
    let sum := x.toNat + r.toNat + (sum >>> 8)
    let rest := addScalars xs rs sum
    (UInt8.ofNat (sum &&& 0xff) :: rest.1, rest.2)
  | _, _, sum => ([], sum)

@[simp] theorem length_pruneRootScalar (s : List UInt8) :
    (pruneRootScalar s).length = s.length := by
  simp [pruneRootScalar]

@[simp] theorem length_pruneIntermediateScalar (f : List UInt8) :
    (pruneIntermediateScalar f).length = f.length := by
  simp [pruneIntermediateScalar]

theorem length_addScalars : ∀ (xs rs : List UInt8) (sum : Nat),
    (addScalars xs rs sum).1.length = min xs.length rs.length
  | _ :: xs, _ :: rs, sum => by
    simp only [addScalars, List.length_cons, length_addScalars xs rs]
    omega
  | [], _, _ => by simp [addScalars]
  | _ :: _, [], _ => by simp [addScalars]

/-- A key from an HMAC sum: its scalar slice pruned and written back before the rest. -/
theorem length_prune_append_drop {prune : List UInt8 → List UInt8}
    (hp : ∀ s, (prune s).length = s.length) {h : List UInt8} (hh : h.length = 64) :
    (prune (h.take 32) ++ h.drop 32).length = 64 := by
  simp [hp, hh]

theorem take_prune_append_drop {prune : List UInt8 → List UInt8}
    (hp : ∀ s, (prune s).length = s.length) {h : List UInt8} (hh : h.length = 64) :
    (prune (h.take 32) ++ h.drop 32).take 32 = prune (h.take 32) :=
  List.take_left' (by simp [hp, hh])

/-! ## Scalars as integers -/

@[simp] theorem scalarValue_nil : scalarValue [] = 0 := rfl

@[simp] theorem scalarValue_cons (x : UInt8) (xs : List UInt8) :
    scalarValue (x :: xs) = x.toNat + 256 * scalarValue xs := by
  simp [scalarValue, Nat.ofDigits_cons]

theorem scalarValue_lt (s : List UInt8) : scalarValue s < 256 ^ s.length := by
  have h := Nat.ofDigits_lt_base_pow_length (b := 256) (l := s.map UInt8.toNat) (by decide)
    (fun d hd => by
      obtain ⟨x, -, rfl⟩ := List.mem_map.mp hd
      exact x.toNat_lt)
  simpa only [scalarValue, List.length_map] using h

/-- One more byte of a scalar counts `256 ^ n` times its value. -/
theorem scalarValue_take_succ {l : List UInt8} {n : Nat} (h : n < l.length) :
    scalarValue (l.take (n + 1)) = scalarValue (l.take n) + 256 ^ n * (l.getD n 0).toNat := by
  rw [List.take_add_one, List.getElem?_eq_getElem h, List.getD_eq_getElem?_getD,
    List.getElem?_eq_getElem h]
  unfold scalarValue
  rw [List.map_append, Nat.ofDigits_append]
  simp [Nat.min_eq_left h.le]

/-- The carry chain adds: the bytes out and the last carry make the sum of the bytes in. -/
theorem addScalars_value : ∀ (xs rs : List UInt8) (sum : Nat), xs.length = rs.length →
    scalarValue (addScalars xs rs sum).1 + 256 ^ xs.length * ((addScalars xs rs sum).2 >>> 8) =
      scalarValue xs + scalarValue rs + (sum >>> 8)
  | x :: xs, r :: rs, sum, hlen => by
    have ih := addScalars_value xs rs (x.toNat + r.toNat + (sum >>> 8)) (by simpa using hlen)
    have hand : ∀ n : Nat, n &&& 0xff = n % 256 := fun n => Nat.and_two_pow_sub_one_eq_mod n 8
    have hshift : ∀ n : Nat, n >>> 8 = n / 256 := fun n => Nat.shiftRight_eq_div_pow n 8
    have hpow : ∀ c : Nat, 256 ^ (xs.length + 1) * c = 256 * (256 ^ xs.length * c) := fun c => by
      ring
    simp only [addScalars, scalarValue_cons, List.length_cons, UInt8.toNat_ofNat', hand, hpow]
    rw [hshift] at ih ⊢
    omega
  | [], [], sum, _ => by simp [addScalars]
  | [], _ :: _, _, h => absurd h (by simp)
  | _ :: _, [], _, h => absurd h (by simp)

/-- The top byte of a pruned root scalar. -/
theorem and_31_or_64 (x : Nat) : x &&& 31 ||| 64 = x % 32 + 64 := by
  rw [show (31 : Nat) = 2 ^ 5 - 1 from rfl, Nat.and_two_pow_sub_one_eq_mod, Nat.or_comm,
    show (64 : Nat) = 2 ^ 6 * 1 from rfl,
    ← Nat.two_pow_add_eq_or_of_lt (Nat.lt_of_lt_of_le (Nat.mod_lt _ (by decide)) (by decide))]
  omega

/-- A pruned root scalar lies between `2^254` and `2^254 + 2^253`. -/
theorem scalarValue_pruneRootScalar {s : List UInt8} (hs : s.length = 32) :
    2 ^ 254 ≤ scalarValue (pruneRootScalar s) ∧
      scalarValue (pruneRootScalar s) < 2 ^ 254 + 2 ^ 253 := by
  have hlen : (pruneRootScalar s).length = 32 := by rw [length_pruneRootScalar, hs]
  have hsplit := scalarValue_take_succ (l := pruneRootScalar s) (n := 31) (by omega)
  rw [List.take_of_length_le (by omega)] at hsplit
  -- the top byte is `(s[31] &&& 31) ||| 64`, between 64 and 95
  have htop : ((pruneRootScalar s).getD 31 0).toNat = (s.getD 31 0).toNat % 32 + 64 := by
    simp [pruneRootScalar, List.getD_eq_getElem?_getD, hs, and_31_or_64]
  have hlow := scalarValue_lt ((pruneRootScalar s).take 31)
  rw [List.length_take, hlen, show min 31 32 = 31 from rfl] at hlow
  have hmod := Nat.mod_lt (s.getD 31 0).toNat (by decide : 0 < 32)
  rw [htop] at hsplit
  constructor <;> omega

/-- A pruned intermediate scalar lies below `2^233`. -/
theorem scalarValue_pruneIntermediateScalar {f : List UInt8} (hf : f.length = 32) :
    scalarValue (pruneIntermediateScalar f) < 2 ^ 233 := by
  have hlen : (pruneIntermediateScalar f).length = 32 := by rw [length_pruneIntermediateScalar, hf]
  have h31 := scalarValue_take_succ (l := pruneIntermediateScalar f) (n := 31) (by omega)
  have h30 := scalarValue_take_succ (l := pruneIntermediateScalar f) (n := 30) (by omega)
  have h29 := scalarValue_take_succ (l := pruneIntermediateScalar f) (n := 29) (by omega)
  simp only [Nat.reduceAdd] at h31 h30 h29
  rw [List.take_of_length_le (by omega)] at h31
  -- bytes 30 and 31 are zero and byte 29 is `f[29] &&& 1`
  have hbytes : ((pruneIntermediateScalar f).getD 31 0).toNat = 0 ∧
      ((pruneIntermediateScalar f).getD 30 0).toNat = 0 ∧
      ((pruneIntermediateScalar f).getD 29 0).toNat ≤ 1 := by
    simp [pruneIntermediateScalar, List.getD_eq_getElem?_getD, hf]
    omega
  have hlow := scalarValue_lt ((pruneIntermediateScalar f).take 29)
  rw [List.length_take, hlen, show min 29 32 = 29 from rfl] at hlow
  obtain ⟨h31z, h30z, h29le⟩ := hbytes
  omega

section Derive

variable {G : Type} [AddCommGroup G] (curve : Curve G) (hmac : Hmac)

/-- `RootXPrv`. -/
def rootXPrv (seed : List UInt8) : XPrv :=
  let h := hmac.sum (['R', 'o', 'o', 't'].map Char.toUInt8) seed
  ⟨pruneRootScalar (h.take 32) ++ h.drop 32,
    length_prune_append_drop length_pruneRootScalar (hmac.length_sum _ _)⟩

/-- `XPrv.XPub`: the point of the scalar, encoded, and the chain code. -/
def XPrv.xpub (xprv : XPrv) : XPub :=
  ⟨curve.encode (curve.scMulBase (xprv.bytes.take 32)) ++ xprv.bytes.drop 32, by
    simp [curve.length_encode, xprv.length_bytes]⟩

/-- `hardenedChild`: the HMAC of the private scalar under the chain code. -/
def XPrv.hardenedChild (xprv : XPrv) (sel : List UInt8) : XPrv :=
  let h := hmac.sum (xprv.bytes.drop 32) ('H'.toUInt8 :: xprv.bytes.take 32 ++ sel)
  ⟨pruneRootScalar (h.take 32) ++ h.drop 32,
    length_prune_append_drop length_pruneRootScalar (hmac.length_sum _ _)⟩

/-- The HMAC of a non-hardened step from an xpub, its scalar half pruned. -/
def childHash (xpub : XPub) (sel : List UInt8) : List UInt8 :=
  let h := hmac.sum (xpub.bytes.drop 32) ('N'.toUInt8 :: xpub.bytes.take 32 ++ sel)
  pruneIntermediateScalar (h.take 32) ++ h.drop 32

theorem length_childHash (xpub : XPub) (sel : List UInt8) :
    (childHash hmac xpub sel).length = 64 :=
  length_prune_append_drop length_pruneIntermediateScalar (hmac.length_sum _ _)

/-- `nonhardenedChild`: the parent scalar plus the HMAC scalar of its xpub; `none` is the panic
"sum does not fit in 256-bit int". -/
def XPrv.nonhardenedChild (xprv : XPrv) (sel : List UInt8) : Option XPrv :=
  let res := childHash hmac (xprv.xpub curve) sel
  let sum := addScalars (xprv.bytes.take 32) (res.take 32) 0
  if sum.2 >>> 8 ≠ 0 then none
  else
    some ⟨sum.1 ++ res.drop 32, by
      have hres : res.length = 64 := length_childHash hmac _ _
      rw [List.length_append, length_addScalars]
      simp [xprv.length_bytes, hres]⟩

/-- `XPrv.Child`. -/
def XPrv.child (xprv : XPrv) (sel : List UInt8) (hardened : Bool) : Option XPrv :=
  if hardened then some (xprv.hardenedChild hmac sel) else xprv.nonhardenedChild curve hmac sel

/-- `XPub.Child`: the parent point plus the point of the HMAC scalar; `none` is the panic "XPub
should have been validated on initialization". -/
def XPub.child (xpub : XPub) (sel : List UInt8) : Option XPub :=
  let res := childHash hmac xpub sel
  let F := curve.scMulBase (res.take 32)
  match curve.decode (xpub.bytes.take 32) with
  | none => none
  | some P => some ⟨curve.encode (P + F) ++ res.drop 32, by
      have hres : res.length = 64 := length_childHash hmac _ _
      rw [List.length_append, curve.length_encode, List.length_drop, hres]⟩

/-- `XPrv.Derive`: non-hardened children along the path. -/
def XPrv.derive (xprv : XPrv) : List (List UInt8) → Option XPrv
  | [] => some xprv
  | p :: path => (xprv.child curve hmac p false).bind fun res => res.derive path

/-- `XPub.Derive`. -/
def XPub.derive (xpub : XPub) : List (List UInt8) → Option XPub
  | [] => some xpub
  | p :: path => (xpub.child curve hmac p).bind fun res => res.derive path

/-! ## Derivation -/

theorem scalarValue_rootXPrv (seed : List UInt8) :
    2 ^ 254 ≤ scalarValue ((rootXPrv hmac seed).bytes.take 32) ∧
      scalarValue ((rootXPrv hmac seed).bytes.take 32) < 2 ^ 254 + 2 ^ 253 := by
  simp only [rootXPrv]
  rw [take_prune_append_drop length_pruneRootScalar (hmac.length_sum _ _)]
  exact scalarValue_pruneRootScalar (by simp [hmac.length_sum])

theorem scalarValue_hardenedChild (xprv : XPrv) (sel : List UInt8) :
    2 ^ 254 ≤ scalarValue ((xprv.hardenedChild hmac sel).bytes.take 32) ∧
      scalarValue ((xprv.hardenedChild hmac sel).bytes.take 32) < 2 ^ 254 + 2 ^ 253 := by
  simp only [XPrv.hardenedChild]
  rw [take_prune_append_drop length_pruneRootScalar (hmac.length_sum _ _)]
  exact scalarValue_pruneRootScalar (by simp [hmac.length_sum])

/-- Without a carry out of the top byte, `nonhardenedChild` gives the sum and the chain code. -/
theorem nonhardenedChild_eq_some {xprv : XPrv} {sel : List UInt8}
    (hcarry : (addScalars (xprv.bytes.take 32)
      ((childHash hmac (xprv.xpub curve) sel).take 32) 0).2 >>> 8 = 0) :
    ∃ child, xprv.nonhardenedChild curve hmac sel = some child ∧
      child.bytes = (addScalars (xprv.bytes.take 32)
        ((childHash hmac (xprv.xpub curve) sel).take 32) 0).1 ++
          (childHash hmac (xprv.xpub curve) sel).drop 32 := by
  unfold XPrv.nonhardenedChild
  dsimp only
  rw [if_neg (by rw [hcarry]; decide)]
  exact ⟨_, rfl, rfl⟩

/-- An xpub whose point decodes has as child the sum point and the chain code. -/
theorem XPub.child_eq_some {xpub : XPub} {sel : List UInt8} {P : G}
    (hP : curve.decode (xpub.bytes.take 32) = some P) :
    ∃ child, xpub.child curve hmac sel = some child ∧
      child.bytes = curve.encode (P + curve.scMulBase ((childHash hmac xpub sel).take 32)) ++
        (childHash hmac xpub sel).drop 32 := by
  unfold XPub.child
  dsimp only
  rw [hP]
  exact ⟨_, rfl, rfl⟩

/-- One non-hardened step from a scalar with room below `2^255`: no panic, a scalar at most
`2^233` higher, and the child's xpub is the xpub's child. -/
theorem nonhardenedChild_spec (xprv : XPrv) (sel : List UInt8)
    (hs : scalarValue (xprv.bytes.take 32) + 2 ^ 233 ≤ 2 ^ 255) :
    ∃ child, xprv.nonhardenedChild curve hmac sel = some child ∧
      scalarValue (child.bytes.take 32) < scalarValue (xprv.bytes.take 32) + 2 ^ 233 ∧
      (xprv.xpub curve).child curve hmac sel = some (child.xpub curve) := by
  set res := childHash hmac (xprv.xpub curve) sel with hres
  set out := addScalars (xprv.bytes.take 32) (res.take 32) 0 with hout
  have hreslen : res.length = 64 := length_childHash hmac _ _
  have hxlen : (xprv.bytes.take 32).length = 32 := by simp [xprv.length_bytes]
  have hflen : (res.take 32).length = 32 := by simp [hreslen]
  have houtlen : out.1.length = 32 := by rw [hout, length_addScalars, hxlen, hflen]; rfl
  -- the HMAC scalar is below `2^233`, so the sum stays below `2^255` with no carry out
  have hf : scalarValue (res.take 32) < 2 ^ 233 := by
    rw [hres, childHash]
    rw [take_prune_append_drop length_pruneIntermediateScalar (hmac.length_sum _ _)]
    exact scalarValue_pruneIntermediateScalar (by simp [hmac.length_sum])
  have hadd := addScalars_value (xprv.bytes.take 32) (res.take 32) 0 (hxlen.trans hflen.symm)
  rw [← hout, hxlen, Nat.zero_shiftRight, Nat.add_zero] at hadd
  have hlt := scalarValue_lt out.1
  rw [houtlen] at hlt
  have hcarry : out.2 >>> 8 = 0 := by omega
  have hvalue :
      scalarValue out.1 = scalarValue (xprv.bytes.take 32) + scalarValue (res.take 32) := by
    omega
  obtain ⟨child, hchild, hbytes⟩ := nonhardenedChild_eq_some curve hmac hcarry
  have htake : child.bytes.take 32 = out.1 := by
    rw [hbytes]
    exact List.take_left' houtlen
  refine ⟨child, hchild, by rw [htake]; omega, ?_⟩
  -- the public side: the parent point decodes, and adding the HMAC point gives the child's point
  have hP : curve.decode ((xprv.xpub curve).bytes.take 32) =
      some (curve.scMulBase (xprv.bytes.take 32)) := by
    simp only [XPrv.xpub]
    rw [List.take_left' (curve.length_encode _), curve.decode_encode]
  obtain ⟨pub, hpub, hpubbytes⟩ : ∃ child, (xprv.xpub curve).child curve hmac sel = some child ∧ _ :=
    XPub.child_eq_some curve hmac hP
  rw [hpub]
  congr 1
  ext1
  rw [hpubbytes, ← hres, XPrv.xpub]
  dsimp only
  rw [htake, hbytes, List.drop_left' houtlen, curve.scMulBase_eq _ hxlen (by omega),
    curve.scMulBase_eq _ hflen (by omega), curve.scMulBase_eq _ houtlen (by omega), hvalue,
    add_nsmul]

/-- Derivation along a path, from a scalar with room for every step below `2^255`. -/
theorem derive_spec : ∀ (path : List (List UInt8)) (xprv : XPrv),
    scalarValue (xprv.bytes.take 32) + path.length * 2 ^ 233 < 2 ^ 255 →
    ∃ child, xprv.derive curve hmac path = some child ∧
      (xprv.xpub curve).derive curve hmac path = some (child.xpub curve)
  | [], xprv, _ => ⟨xprv, rfl, rfl⟩
  | p :: path, xprv, h => by
    rw [List.length_cons] at h
    obtain ⟨child, hchild, hvalue, hpub⟩ := nonhardenedChild_spec curve hmac xprv p (by omega)
    obtain ⟨c, hc, hcpub⟩ := derive_spec path child (by omega)
    refine ⟨c, ?_, ?_⟩
    · simp only [XPrv.derive, XPrv.child, Bool.false_eq_true, if_false, hchild, Option.bind_some]
      exact hc
    · simp only [XPub.derive, hpub, Option.bind_some]
      exact hcpub

/-- From a root key or a hardened child, along any path of fewer than `2^20` selectors, derivation
never panics and the derived key's xpub is the xpub derived along the path. -/
theorem derive_xpub {xprv : XPrv}
    (hxprv : (∃ seed, xprv = rootXPrv hmac seed) ∨
      ∃ (parent : XPrv) (sel : List UInt8), parent.child curve hmac sel true = some xprv)
    {path : List (List UInt8)} (hpath : path.length < 2 ^ 20) :
    ∃ child, xprv.derive curve hmac path = some child ∧
      (xprv.xpub curve).derive curve hmac path = some (child.xpub curve) := by
  have hroot : scalarValue (xprv.bytes.take 32) < 2 ^ 254 + 2 ^ 253 := by
    rcases hxprv with ⟨seed, rfl⟩ | ⟨parent, sel, hchild⟩
    · exact (scalarValue_rootXPrv hmac seed).2
    · simp only [XPrv.child, if_true, Option.some.injEq] at hchild
      subst hchild
      exact (scalarValue_hardenedChild hmac parent sel).2
  exact derive_spec curve hmac path xprv (by omega)

end Derive

/-- The one-point group with the zero encoding: the least `ecmath` there is. -/
def unitCurve : Curve Unit where
  base := ()
  scMulBase _ := ()
  scMulBase_eq _ _ _ := Subsingleton.elim _ _
  encode _ := List.replicate 32 0
  length_encode _ := List.length_replicate
  decode _ := some ()
  decode_encode _ := rfl

/-- An HMAC that sums to zero bytes. -/
def zeroHmac : Hmac := ⟨fun _ _ => List.replicate 64 0, fun _ _ => List.length_replicate⟩

theorem derive_xpub_root :
    ∃ child, (rootXPrv zeroHmac []).derive unitCurve zeroHmac [[1], [2]] = some child ∧
      ((rootXPrv zeroHmac []).xpub unitCurve).derive unitCurve zeroHmac [[1], [2]] =
        some (child.xpub unitCurve) :=
  derive_xpub unitCurve zeroHmac (Or.inl ⟨[], rfl⟩) (by decide)

end KuskCore.Chainkd
