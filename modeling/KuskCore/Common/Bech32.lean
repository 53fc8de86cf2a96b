import Mathlib
import KuskCore.BitGroups

/-!
# Bech32

`Bech32Encode`, `Bech32Decode` and `ConvertBits` of `common/bech32/bech32.go` (BIP 173). A bech32
string is a human-readable part, the separator `1`, and 5-bit values written in a 32-letter
charset, of which the last six are a BCH checksum over the values and the expanded
human-readable part. The checksum is computed by `bech32Checksum` and checked by a second
function, `bech32VerifyChecksum`; `ConvertBits` regroups bytes into 5-bit values and back.

Go strings are byte lists, and `strings.ToLower`/`ToUpper` act on ASCII letters only: the case
mapping of other characters is left out, which changes nothing that `Bech32Decode` accepts, since
it rejects every byte outside 33 to 126 first.

The results: `ConvertBits` is the regrouping machine of `BitGroups` on the input's bits
(`convertBits_eq`), so that bytes to 5-bit values and back is the identity
(`convertBits_roundTrip`), and 5-bit values that `ConvertBits` accepts come back from the bytes
(`convertBits_values_roundTrip`). The polymod is linear in exclusive or, so the six values that
`bech32Checksum` computes are the only ones `bech32VerifyChecksum` accepts
(`verifyChecksum_iff`). From these, `Bech32Decode` reads back what `Bech32Encode` writes for a
lowercase human-readable part within the 90-character limit (`bech32Decode_encode`), and
`Bech32Encode` writes back the lowered string of what `Bech32Decode` accepts
(`bech32Encode_decode`).
-/

namespace KuskCore.Bech32

open BigEndian BitGroups Machine

/-- The bytes of an ASCII text. -/
def ascii (s : String) : List UInt8 := s.toList.map fun c => c.toNat.toUInt8

/-- `charset`. -/
def charset : List UInt8 := ascii "qpzry9x8gf2tvdw0s3jn54khce6mua7l"

/-- `gen`, the generator of the BCH code. -/
def gen : List Nat := [0x3b6a57b2, 0x26508e6d, 0x1ea119fa, 0x3d4233dd, 0x2a1462b3]

/-- The separator `1`. -/
def separator : UInt8 := 49

/-- The errors of the package. -/
inductive Bech32Error where
  /-- "invalid bech32 string length %d". -/
  | invalidLength (length : Nat)
  /-- "invalid character in string: '%c'". -/
  | invalidCharacter (c : UInt8)
  /-- "string not all lowercase or all uppercase". -/
  | mixedCase
  /-- "invalid index of 1". -/
  | invalidIndexOfOne
  /-- "failed converting data to bytes: invalid character not part of charset: %v". -/
  | notInCharset (c : UInt8)
  /-- "checksum failed. " followed by "Expected %v, got %v." when the expected checksum has
  characters. -/
  | checksumFailed (moreInfo : Option (List UInt8 × List UInt8))
  /-- "unable to convert data bytes to chars: invalid data byte: %v". -/
  | invalidDataByte (b : UInt8)
  /-- "only bit groups between 1 and 8 allowed". -/
  | bitGroupsOutOfRange
  /-- "invalid incomplete group". -/
  | invalidIncompleteGroup
  deriving DecidableEq, Repr

/-! ## Strings -/

/-- `unicode.ToLower` on an ASCII byte. -/
def toLowerByte (c : UInt8) : UInt8 := if 65 ≤ c ∧ c ≤ 90 then c + 32 else c

/-- `unicode.ToUpper` on an ASCII byte. -/
def toUpperByte (c : UInt8) : UInt8 := if 97 ≤ c ∧ c ≤ 122 then c - 32 else c

/-- `strings.ToLower`. -/
def toLower (s : List UInt8) : List UInt8 := s.map toLowerByte

/-- `strings.ToUpper`. -/
def toUpper (s : List UInt8) : List UInt8 := s.map toUpperByte

/-- `strings.LastIndexByte`: the last position of the byte, or -1. -/
def lastIndexByte : List UInt8 → UInt8 → Int
  | [], _ => -1
  | b :: s, c =>
    let i := lastIndexByte s c
    if 0 ≤ i then i + 1 else if b = c then 0 else -1

theorem lastIndexByte_nil (c : UInt8) : lastIndexByte [] c = -1 := rfl

theorem lastIndexByte_cons (b : UInt8) (s : List UInt8) (c : UInt8) :
    lastIndexByte (b :: s) c =
      if 0 ≤ lastIndexByte s c then lastIndexByte s c + 1 else if b = c then 0 else -1 := rfl

/-- `strings.IndexByte`: the first position of the byte, or -1. -/
def indexByte (s : List UInt8) (c : UInt8) : Int := if c ∈ s then s.idxOf c else -1

/-- `toBytes`: each character's position in the charset, or the first character outside it. -/
def toBytes : List UInt8 → Except UInt8 (List UInt8)
  | [] => .ok []
  | c :: chars =>
    let index := indexByte charset c
    if index < 0 then .error c
    else match toBytes chars with
      | .error e => .error e
      | .ok decoded => .ok (UInt8.ofNat index.toNat :: decoded)

/-- `toChars`: the charset letter at each value, or the first value past the charset. -/
def toChars : List UInt8 → Except UInt8 (List UInt8)
  | [] => .ok []
  | b :: data =>
    if h : b.toNat < charset.length then
      match toChars data with
      | .error e => .error e
      | .ok result => .ok (charset.get ⟨b.toNat, h⟩ :: result)
    else .error b

/-! ## The checksum -/

/-- The inner loop of `bech32Polymod`: `chk ^= gen[i]` for each bit `i` of `b` that is set. -/
def genLoop (b : Nat) : Nat → List Nat → Nat → Nat
  | _, [], chk => chk
  | i, g :: gs, chk => genLoop b (i + 1) gs (if (b >>> i) &&& 1 = 1 then chk ^^^ g else chk)

theorem genLoop_nil (b i chk : Nat) : genLoop b i [] chk = chk := rfl

theorem genLoop_cons (b i g : Nat) (gs : List Nat) (chk : Nat) :
    genLoop b i (g :: gs) chk =
      genLoop b (i + 1) gs (if (b >>> i) &&& 1 = 1 then chk ^^^ g else chk) := rfl

/-- One value of `bech32Polymod`: the state moves up five bits, the value comes in below, and
the five bits that moved out select generators. -/
def polymodStep (chk v : Nat) : Nat :=
  let b := chk >>> 25
  genLoop b 0 gen ((chk &&& 0x1ffffff) <<< 5 ^^^ v)

/-- `bech32Polymod`. -/
def bech32Polymod (values : List Nat) : Nat := values.foldl polymodStep 1

/-- `bech32HrpExpand`: the high three bits of each character, a zero, then the low five bits of
each. -/
def bech32HrpExpand (hrp : List UInt8) : List Nat :=
  hrp.map (fun c : UInt8 => (c >>> 5).toNat) ++ [0] ++ hrp.map fun c : UInt8 => (c &&& 31).toNat

/-- `bech32Checksum`: the polymod of the expanded part, the values and six zeros, with its low
bit flipped, cut into six 5-bit values from the top. -/
def bech32Checksum (hrp data : List UInt8) : List UInt8 :=
  let values := bech32HrpExpand hrp ++ data.map UInt8.toNat ++ [0, 0, 0, 0, 0, 0]
  let polymod := bech32Polymod values ^^^ 1
  (List.range 6).map fun i => UInt8.ofNat ((polymod >>> (5 * (5 - i))) &&& 31)

/-- `bech32VerifyChecksum`. -/
def bech32VerifyChecksum (hrp data : List UInt8) : Bool :=
  bech32Polymod (bech32HrpExpand hrp ++ data.map UInt8.toNat) == 1

/-! ## Encoding and decoding -/

/-- `Bech32Encode`. -/
def bech32Encode (hrp data : List UInt8) : Except Bech32Error (List UInt8) :=
  let checksum := bech32Checksum hrp data
  let combined := data ++ checksum
  match toChars combined with
  | .error b => .error (.invalidDataByte b)
  | .ok dataChars => .ok (hrp ++ [separator] ++ dataChars)

/-- `Bech32Decode`: the human-readable part and the values without the checksum. -/
def bech32Decode (bech : List UInt8) : Except Bech32Error (List UInt8 × List UInt8) := do
  if bech.length < 8 ∨ bech.length > 90 then throw (.invalidLength bech.length)
  match bech.find? fun c => c < 33 ∨ c > 126 with
  | some c => throw (.invalidCharacter c)
  | none => pure ()
  let lower := toLower bech
  let upper := toUpper bech
  if bech ≠ lower ∧ bech ≠ upper then throw .mixedCase
  let bech := lower
  let one := lastIndexByte bech separator
  if one < 1 ∨ one + 7 > bech.length then throw .invalidIndexOfOne
  let hrp := bech.take one.toNat
  let data := bech.drop (one.toNat + 1)
  let decoded ← match toBytes data with
    | .error c => throw (.notInCharset c)
    | .ok decoded => pure decoded
  if !bech32VerifyChecksum hrp decoded then
    let checksum := bech.drop (bech.length - 6)
    match toChars (bech32Checksum hrp (decoded.take (decoded.length - 6))) with
    | .ok expected => throw (.checksumFailed (some (expected, checksum)))
    | .error _ => throw (.checksumFailed none)
  pure (hrp, decoded.take (decoded.length - 6))

/-! ## Regrouping bits -/

/-- `b << k` on a byte: the bits shifted past the top are lost. -/
def shl (b : UInt8) (k : Nat) : UInt8 := UInt8.ofNat (b.toNat <<< k)

/-- `b >> k` on a byte. -/
def shr (b : UInt8) (k : Nat) : UInt8 := UInt8.ofNat (b.toNat >>> k)

/-- What `ConvertBits` carries from bit to bit: the bytes regrouped so far, and the byte being
filled with the count of its bits. -/
structure Regrouping where
  regrouped : List UInt8
  nextByte : UInt8
  filledBits : Nat
  deriving DecidableEq, Repr

/-- The inner loop of `ConvertBits` over one input byte, whose `remFromBits` bits still to take
stand at the top of `b`: each pass takes as many as fit in the byte being filled. The fuel
bounds the passes, each of which takes at least one bit while the byte being filled is short of
`toBits`. -/
def extractLoop (toBits : Nat) : Nat → UInt8 → Nat → Regrouping → Regrouping
  | 0, _, _, s => s
  | fuel + 1, b, remFromBits, s =>
    if remFromBits = 0 then s
    else
      let remToBits := toBits - s.filledBits
      let toExtract := if remToBits < remFromBits then remToBits else remFromBits
      let nextByte := shl s.nextByte toExtract ||| shr b (8 - toExtract)
      let filledBits := s.filledBits + toExtract
      let s : Regrouping :=
        if filledBits = toBits then ⟨s.regrouped ++ [nextByte], 0, 0⟩
        else ⟨s.regrouped, nextByte, filledBits⟩
      extractLoop toBits fuel (shl b toExtract) (remFromBits - toExtract) s

/-- The outer loop of `ConvertBits`: each byte's unused high bits are discarded, then its
`fromBits` bits are taken. -/
def regroupLoop (fromBits toBits : Nat) : List UInt8 → Regrouping → Regrouping
  | [], s => s
  | b :: data, s =>
    regroupLoop fromBits toBits data (extractLoop toBits fromBits (shl b (8 - fromBits)) fromBits s)

/-- `ConvertBits`. -/
def convertBits (data : List UInt8) (fromBits toBits : Nat) (pad : Bool) :
    Except Bech32Error (List UInt8) :=
  if fromBits < 1 ∨ fromBits > 8 ∨ toBits < 1 ∨ toBits > 8 then .error .bitGroupsOutOfRange
  else
    let s := regroupLoop fromBits toBits data ⟨[], 0, 0⟩
    -- an unfinished group is padded with zero bits when asked
    let s : Regrouping :=
      if pad ∧ s.filledBits > 0 then ⟨s.regrouped ++ [shl s.nextByte (toBits - s.filledBits)], 0, 0⟩
      else s
    if s.filledBits > 0 ∧ (s.filledBits > 4 ∨ s.nextByte ≠ 0) then .error .invalidIncompleteGroup
    else .ok s.regrouped

/-! ## Regrouping as the machine of `BitGroups` -/

/-- The state of `ConvertBits` read as the regrouping machine. -/
def view (s : Regrouping) : Machine := ⟨s.regrouped.map UInt8.toNat, s.nextByte.toNat, s.filledBits⟩

@[simp] theorem view_out (s : Regrouping) : (view s).out = s.regrouped.map UInt8.toNat := rfl
@[simp] theorem view_next (s : Regrouping) : (view s).next = s.nextByte.toNat := rfl
@[simp] theorem view_filled (s : Regrouping) : (view s).filled = s.filledBits := rfl

/-- What `ConvertBits` computes, on bits: the low `fromBits` bits of each byte read into
`toBits`-bit groups, and the last, partial group padded, or checked, as the source does. -/
def regroup (data : List UInt8) (fromBits toBits : Nat) (pad : Bool) :
    Except Bech32Error (List UInt8) :=
  if fromBits < 1 ∨ fromBits > 8 ∨ toBits < 1 ∨ toBits > 8 then .error .bitGroupsOutOfRange
  else
    let m := empty.pushAll toBits (groupBits fromBits (data.map UInt8.toNat))
    if pad ∧ m.filled > 0 then .ok ((m.flush toBits).out.map UInt8.ofNat)
    else if m.filled > 0 ∧ (m.filled > 4 ∨ m.next ≠ 0) then .error .invalidIncompleteGroup
    else .ok (m.out.map UInt8.ofNat)

theorem toNat_shl (b : UInt8) (k : Nat) : (shl b k).toNat = b.toNat * 2 ^ k % 256 := by
  rw [shl, UInt8.toNat_ofNat', Nat.shiftLeft_eq]

theorem toNat_shr (b : UInt8) (k : Nat) : (shr b k).toNat = b.toNat / 2 ^ k := by
  rw [shr, UInt8.toNat_ofNat', Nat.shiftRight_eq_div_pow]
  exact Nat.mod_eq_of_lt (Nat.lt_of_le_of_lt (Nat.div_le_self _ _) b.toNat_lt)

/-- Bits `P ++ Q` standing above `e` free low bits: shifting right past `Q` and the free bits
leaves `P`. -/
theorem window_div {P Q : List Nat} (hQ : ∀ d ∈ Q, d < 2) (e : Nat) :
    ofDigits 2 (P ++ Q) * 2 ^ e / 2 ^ (Q.length + e) = ofDigits 2 P := by
  have hlow : ofDigits 2 Q * 2 ^ e < 2 ^ (Q.length + e) := by
    rw [Nat.pow_add]
    exact Nat.mul_lt_mul_of_pos_right (ofDigits_lt hQ) (Nat.two_pow_pos e)
  have hsplit : ofDigits 2 (P ++ Q) * 2 ^ e =
      ofDigits 2 Q * 2 ^ e + ofDigits 2 P * 2 ^ (Q.length + e) := by
    rw [ofDigits_append, Nat.pow_add]
    ring
  rw [hsplit, Nat.add_mul_div_right _ _ (Nat.two_pow_pos _), Nat.div_eq_of_lt hlow, Nat.zero_add]

/-- Shifting the same window left past `P`, within its width, leaves `Q` at the top. -/
theorem window_shl_mod {P Q : List Nat} (hQ : ∀ d ∈ Q, d < 2) (e : Nat) :
    ofDigits 2 (P ++ Q) * 2 ^ e * 2 ^ P.length % 2 ^ (P.length + Q.length + e) =
      ofDigits 2 Q * 2 ^ (P.length + e) := by
  have hlow : ofDigits 2 Q * 2 ^ (P.length + e) < 2 ^ (P.length + Q.length + e) := by
    calc ofDigits 2 Q * 2 ^ (P.length + e) < 2 ^ Q.length * 2 ^ (P.length + e) :=
          Nat.mul_lt_mul_of_pos_right (ofDigits_lt hQ) (Nat.two_pow_pos _)
      _ = 2 ^ (P.length + Q.length + e) := by rw [← Nat.pow_add]; congr 1; omega
  have hsplit : ofDigits 2 (P ++ Q) * 2 ^ e * 2 ^ P.length =
      ofDigits 2 Q * 2 ^ (P.length + e) + ofDigits 2 P * 2 ^ (P.length + Q.length + e) := by
    rw [ofDigits_append]
    simp only [Nat.pow_add]
    ring
  rw [hsplit, Nat.add_mul_mod_self_right, Nat.mod_eq_of_lt hlow]

/-- One pass of the inner loop, when the bits of the input byte still to take are `P ++ Q` at
its top and the pass takes `P`: the byte being filled takes in `P`, as the machine does, and
`Q` is left at the top of the shifted input byte. -/
theorem extract_step {t : Nat} (ht : t ≤ 8) {P Q : List Nat} (hP : ∀ d ∈ P, d < 2)
    (hQ : ∀ d ∈ Q, d < 2) (hlen : P.length + Q.length ≤ 8) {b : UInt8}
    (hb : b.toNat = ofDigits 2 (P ++ Q) * 2 ^ (8 - (P.length + Q.length))) {s : Regrouping}
    (hs : (view s).WF t) (hroom : s.filledBits + P.length ≤ t) :
    view (if s.filledBits + P.length = t
        then ⟨s.regrouped ++ [shl s.nextByte P.length ||| shr b (8 - P.length)], 0, 0⟩
        else ⟨s.regrouped, shl s.nextByte P.length ||| shr b (8 - P.length),
          s.filledBits + P.length⟩) = (view s).pushAll t P ∧
      (shl b P.length).toNat = ofDigits 2 Q * 2 ^ (8 - Q.length) := by
  have hnext : s.nextByte.toNat < 2 ^ s.filledBits := hs.next_lt
  -- the bits already in the byte being filled move up without reaching its top
  have hmoved : (shl s.nextByte P.length).toNat = s.nextByte.toNat * 2 ^ P.length := by
    rw [toNat_shl]
    apply Nat.mod_eq_of_lt
    calc s.nextByte.toNat * 2 ^ P.length < 2 ^ s.filledBits * 2 ^ P.length :=
          Nat.mul_lt_mul_of_pos_right hnext (Nat.two_pow_pos _)
      _ = 2 ^ (s.filledBits + P.length) := (Nat.pow_add _ _ _).symm
      _ ≤ 2 ^ 8 := Nat.pow_le_pow_right (by decide) (by omega)
  have htaken : (shr b (8 - P.length)).toNat = ofDigits 2 P := by
    rw [toNat_shr, hb, show 8 - P.length = Q.length + (8 - (P.length + Q.length)) by omega]
    exact window_div hQ _
  have hfilled : (shl s.nextByte P.length ||| shr b (8 - P.length)).toNat =
      s.nextByte.toNat * 2 ^ P.length + ofDigits 2 P := by
    rw [UInt8.toNat_or, hmoved, htaken, Nat.mul_comm,
      Nat.two_pow_add_eq_or_of_lt (ofDigits_lt hP)]
  refine ⟨?_, ?_⟩
  · rw [pushAll_chunk hs hP hroom]
    by_cases hfull : s.filledBits + P.length = t
    · simp [hfull, view, hfilled]
    · simp [hfull, view, hfilled]
  · have hwidth : (256 : Nat) = 2 ^ (P.length + Q.length + (8 - (P.length + Q.length))) := by
      rw [show P.length + Q.length + (8 - (P.length + Q.length)) = 8 by omega]
      rfl
    rw [toNat_shl, hb, hwidth, window_shl_mod hQ,
      show P.length + (8 - (P.length + Q.length)) = 8 - Q.length by omega]

/-- The inner loop over one input byte whose bits still to take are `R`, at its top: the state
reads `R` into the machine. Each pass takes at least one bit, so `R.length` passes of fuel are
enough. -/
theorem extractLoop_view {t : Nat} (ht : t ≤ 8) (fuel : Nat) {R : List Nat} {b : UInt8}
    {s : Regrouping} (hR : ∀ d ∈ R, d < 2) (hfuel : R.length ≤ fuel) (h8 : R.length ≤ 8)
    (hb : b.toNat = ofDigits 2 R * 2 ^ (8 - R.length)) (hs : (view s).WF t) :
    view (extractLoop t fuel b R.length s) = (view s).pushAll t R := by
  induction fuel generalizing R b s with
  | zero =>
    rw [List.eq_nil_of_length_eq_zero (Nat.le_zero.mp hfuel)]
    rfl
  | succ fuel ih =>
    by_cases hnil : R = []
    · subst hnil
      rfl
    have hf : s.filledBits < t := hs.filled_lt
    have hpos : 0 < R.length := List.length_pos_iff.mpr hnil
    rw [extractLoop, if_neg (by omega)]
    dsimp only
    generalize hte : (if t - s.filledBits < R.length then t - s.filledBits else R.length) = te
    have hbounds : s.filledBits + te ≤ t ∧ te ≤ R.length ∧ 0 < te := by
      split at hte <;> omega
    obtain ⟨hroom, hteR, hte0⟩ := hbounds
    -- the pass takes the first te bits and leaves the rest at the top of the byte
    have hsplit := List.take_append_drop te R
    have hPlen : (R.take te).length = te := List.length_take_of_le hteR
    have hQlen : (R.drop te).length = R.length - te := List.length_drop
    have hPbits : ∀ d ∈ R.take te, d < 2 := fun d hd => hR d (List.mem_of_mem_take hd)
    have hQbits : ∀ d ∈ R.drop te, d < 2 := fun d hd => hR d (List.mem_of_mem_drop hd)
    have hb' : b.toNat = ofDigits 2 (R.take te ++ R.drop te) *
        2 ^ (8 - ((R.take te).length + (R.drop te).length)) := by
      rw [hsplit, hPlen, hQlen, show te + (R.length - te) = R.length by omega]
      exact hb
    obtain ⟨hstep, hrest⟩ := extract_step ht hPbits hQbits (by omega) hb' hs (by omega)
    rw [hPlen] at hstep hrest
    have hwf := (bits_pushAll hs hPbits).2
    rw [← hstep] at hwf
    rw [← hQlen, ih hQbits (by omega) (by omega) hrest hwf, hstep, ← pushAll_append, hsplit]

/-- The outer loop's shift puts a byte's low `fromBits` bits at its top. -/
theorem toNat_shl_discard {f : Nat} (hf : f ≤ 8) (b : UInt8) :
    (shl b (8 - f)).toNat =
      ofDigits 2 (toDigits 2 f b.toNat) * 2 ^ (8 - (toDigits 2 f b.toNat).length) := by
  have hwidth : (256 : Nat) = 2 ^ f * 2 ^ (8 - f) := by
    rw [← Nat.pow_add, Nat.add_sub_cancel' hf]
  rw [toNat_shl, length_toDigits, ofDigits_toDigits, hwidth, Nat.mul_mod_mul_right]

/-- The outer loop reads the low `fromBits` bits of every byte into the machine. -/
theorem regroupLoop_view {f t : Nat} (hf : f ≤ 8) (ht : t ≤ 8) (data : List UInt8)
    {s : Regrouping} (hs : (view s).WF t) :
    view (regroupLoop f t data s) = (view s).pushAll t (groupBits f (data.map UInt8.toNat)) := by
  induction data generalizing s with
  | nil => rfl
  | cons b data ih =>
    have hbits : ∀ d ∈ toDigits 2 f b.toNat, d < 2 := fun d hd => lt_of_mem_toDigits (by decide) hd
    have hbyte := extractLoop_view ht f hbits (by rw [length_toDigits])
      (by rw [length_toDigits]; exact hf) (toNat_shl_discard hf b) hs
    rw [length_toDigits] at hbyte
    have hwf := (bits_pushAll hs hbits).2
    rw [← hbyte] at hwf
    rw [regroupLoop, ih hwf, hbyte, List.map_cons, groupBits_cons, pushAll_append]

/-- A state is its view with the values written back as bytes. -/
theorem eq_of_view {s : Regrouping} {m : Machine} (h : view s = m) :
    s = ⟨m.out.map UInt8.ofNat, UInt8.ofNat m.next, m.filled⟩ := by
  subst h
  obtain ⟨regrouped, nextByte, filledBits⟩ := s
  simp only [view, map_ofNat_map_toNat, UInt8.ofNat_toNat]

theorem shl_ofNat {n : Nat} (hn : n < 256) (k : Nat) :
    shl (UInt8.ofNat n) k = UInt8.ofNat (n * 2 ^ k) := by
  rw [shl, UInt8.toNat_ofNat', Nat.shiftLeft_eq, Nat.mod_eq_of_lt hn]

theorem ofNat_ne_zero_iff {n : Nat} (hn : n < 256) : UInt8.ofNat n ≠ 0 ↔ n ≠ 0 := by
  rw [ne_eq, ne_eq, ← UInt8.toNat_inj, UInt8.toNat_ofNat', Nat.mod_eq_of_lt hn]
  rfl

/-- `ConvertBits` is the regrouping machine on the input's bits. -/
theorem convertBits_eq (data : List UInt8) (fromBits toBits : Nat) (pad : Bool) :
    convertBits data fromBits toBits pad = regroup data fromBits toBits pad := by
  unfold convertBits regroup
  split
  · rfl
  rename_i hrange
  have hwf0 : empty.WF toBits := empty_wf (show 0 < toBits by omega)
  have hloop : view (regroupLoop fromBits toBits data ⟨[], 0, 0⟩) =
      empty.pushAll toBits (groupBits fromBits (data.map UInt8.toNat)) :=
    regroupLoop_view (show fromBits ≤ 8 by omega) (show toBits ≤ 8 by omega) data hwf0
  have hbits : ∀ b ∈ groupBits fromBits (data.map UInt8.toNat), b < 2 :=
    fun b hb => lt_two_of_mem_groupBits hb
  have hwf := (bits_pushAll hwf0 hbits).2
  generalize empty.pushAll toBits (groupBits fromBits (data.map UInt8.toNat)) = m at hloop hwf ⊢
  have hfilled : m.filled ≤ 8 := by have := hwf.filled_lt; omega
  have hnext : m.next < 256 :=
    Nat.lt_of_lt_of_le hwf.next_lt (Nat.pow_le_pow_right (by decide) hfilled)
  rw [eq_of_view hloop]
  dsimp only
  by_cases hpad : pad = true ∧ m.filled > 0
  · simp [hpad, flush, shl_ofNat hnext]
  · rw [if_neg hpad, if_neg hpad]
    simp only [ofNat_ne_zero_iff hnext]

/-- With padding, `ConvertBits` returns groups whose bits are the input's bits, then zeros up to
a whole group. -/
theorem regroup_pad (data : List UInt8) (fromBits toBits : Nat) (hf : 1 ≤ fromBits ∧ fromBits ≤ 8)
    (ht : 1 ≤ toBits ∧ toBits ≤ 8) :
    ∃ gs : List Nat, regroup data fromBits toBits true = .ok (gs.map UInt8.ofNat) ∧
      (∀ g ∈ gs, g < 2 ^ toBits) ∧
      groupBits toBits gs = groupBits fromBits (data.map UInt8.toNat) ++
        List.replicate ((toBits - data.length * fromBits % toBits) % toBits) 0 := by
  have hwf0 : empty.WF toBits := empty_wf (by omega)
  have hbits : ∀ b ∈ groupBits fromBits (data.map UInt8.toNat), b < 2 :=
    fun b hb => lt_two_of_mem_groupBits hb
  obtain ⟨hread, hwf⟩ := bits_pushAll hwf0 hbits
  rw [empty_bits, List.nil_append] at hread
  have hfilled := filled_eq hwf
  rw [hread, length_groupBits, List.length_map] at hfilled
  unfold regroup
  rw [if_neg (by omega)]
  dsimp only
  generalize empty.pushAll toBits (groupBits fromBits (data.map UInt8.toNat)) = m at hread hwf hfilled ⊢
  by_cases hpart : m.filled > 0
  · -- the partial group is flushed with zeros
    obtain ⟨hflush, hwf'⟩ := bits_flush hwf
    refine ⟨(m.flush toBits).out, by simp [hpart], hwf'.out_lt, ?_⟩
    have hgroups : (m.flush toBits).bits toBits = groupBits toBits (m.flush toBits).out := by
      simp [bits, flush]
    have hshort : toBits - m.filled < toBits := by omega
    rw [← hgroups, hflush, hread, ← hfilled, Nat.mod_eq_of_lt hshort]
  · -- the bits fill whole groups
    have hzero : m.filled = 0 := by omega
    refine ⟨m.out, by simp [hzero], hwf.out_lt, ?_⟩
    rw [← hfilled, hzero, Nat.sub_zero, Nat.mod_self, List.replicate_zero, List.append_nil, ← hread]
    simp [bits, hzero, toDigits_zero_left]

/-- Bytes to 5-bit values and back is the identity: the values are the bytes' bits padded with
fewer than five zeros, which the way back accepts as an incomplete group and drops. -/
theorem convertBits_roundTrip (x : List UInt8) :
    ∃ values, convertBits x 8 5 true = .ok values ∧ values.length = (8 * x.length + 4) / 5 ∧
      (∀ v ∈ values, v.toNat < 32) ∧ convertBits values 5 8 false = .ok x := by
  obtain ⟨gs, hconv, hgs, hbits⟩ := regroup_pad x 8 5 (by decide) (by decide)
  have hgs256 : ∀ g ∈ gs, g < 256 := fun g hg => Nat.lt_trans (hgs g hg) (by decide)
  have hzeros : (5 - x.length * 8 % 5) % 5 < 5 := Nat.mod_lt _ (by decide)
  refine ⟨gs.map UInt8.ofNat, by rw [convertBits_eq, hconv], ?_, ?_, ?_⟩
  · have hlen := congrArg List.length hbits
    simp only [length_groupBits, List.length_append, List.length_map,
      List.length_replicate] at hlen
    rw [List.length_map]
    omega
  · intro v hv
    obtain ⟨g, hg, rfl⟩ := List.mem_map.mp hv
    rw [UInt8.toNat_ofNat', Nat.mod_eq_of_lt (hgs256 g hg)]
    exact hgs g hg
  · -- the bytes' groups come back whole, and the zeros stay as an incomplete group
    have hwf : (⟨x.map UInt8.toNat, 0, 0⟩ : Machine).WF 8 :=
      ⟨show 0 < 8 by decide, show 0 < 2 ^ 0 by decide, map_toNat_lt x⟩
    generalize (5 - x.length * 8 % 5) % 5 = z at hzeros hbits
    have hz : ∀ d ∈ List.replicate z 0, d < 2 := by
      intro d hd
      rw [List.eq_of_mem_replicate hd]
      decide
    have hroom : 0 + (List.replicate z 0).length ≤ 8 := by
      rw [List.length_replicate]
      omega
    rw [convertBits_eq]
    unfold regroup
    rw [if_neg (by decide), map_toNat_map_ofNat hgs256, hbits, pushAll_append,
      pushAll_groupBits (by decide) (map_toNat_lt x), pushAll_chunk hwf hz hroom]
    simp only [List.length_replicate, ofDigits_replicate_zero, Nat.zero_mul, Nat.zero_add]
    rw [if_neg (show ¬z = 8 by omega)]
    dsimp only
    rw [if_neg (by simp), if_neg (by omega), map_ofNat_map_toNat]

/-- 5-bit values that `ConvertBits` regroups into bytes without error come back from the
bytes. -/
theorem convertBits_values_roundTrip {values : List UInt8} (hv : ∀ v ∈ values, v.toNat < 32)
    {bytes : List UInt8} (h : convertBits values 5 8 false = .ok bytes) :
    convertBits bytes 8 5 true = .ok values := by
  have hV : ∀ v ∈ values.map UInt8.toNat, v < 2 ^ 5 := by
    intro v hv'
    obtain ⟨u, hu, rfl⟩ := List.mem_map.mp hv'
    exact hv u hu
  have hbits : ∀ b ∈ groupBits 5 (values.map UInt8.toNat), b < 2 :=
    fun b hb => lt_two_of_mem_groupBits hb
  obtain ⟨hread, hwf⟩ := bits_pushAll (empty_wf (show 0 < 8 by decide)) hbits
  rw [empty_bits, List.nil_append] at hread
  rw [convertBits_eq] at h
  unfold regroup at h
  rw [if_neg (by decide)] at h
  dsimp only at h
  generalize empty.pushAll 8 (groupBits 5 (values.map UInt8.toNat)) = m at h hread hwf
  rw [if_neg (by simp)] at h
  -- the way there accepted: at most four bits are left over, and they are zeros
  obtain ⟨hcheck, rfl⟩ : ¬(m.filled > 0 ∧ (m.filled > 4 ∨ m.next ≠ 0)) ∧
      m.out.map UInt8.ofNat = bytes := by
    split at h
    · cases h
    · exact ⟨‹_›, Except.ok.inj h⟩
  have hnext : m.next = 0 := by
    by_cases hf : m.filled = 0
    · have := hwf.next_lt
      rw [hf] at this
      omega
    · omega
  have hout : ∀ g ∈ m.out, g < 256 := hwf.out_lt
  rw [bits, hnext, toDigits_zero] at hread
  have hlen := congrArg List.length hread
  simp only [length_groupBits, List.length_append, List.length_map,
    List.length_replicate] at hlen
  obtain ⟨gs, hconv, hgs, hgbits⟩ := regroup_pad (m.out.map UInt8.ofNat) 8 5 (by decide) (by decide)
  rw [map_toNat_map_ofNat hout, List.length_map,
    show (5 - m.out.length * 8 % 5) % 5 = m.filled by omega, hread] at hgbits
  have hgslen := congrArg List.length hgbits
  simp only [length_groupBits, List.length_map] at hgslen
  have hsame : gs = values.map UInt8.toNat :=
    groupBits_inj hgs hV (by rw [List.length_map]; omega) hgbits
  rw [convertBits_eq, hconv, hsame, map_ofNat_map_toNat]

/-! ## The checksum is linear in exclusive or -/

/-- The generator that bit `i` of `b` selects in the inner loop of `bech32Polymod`, or nothing. -/
def selected (b i g : Nat) : Nat := if (b >>> i) &&& 1 = 1 then g else 0

/-- Exclusive or of a value with bits below another's is their sum. -/
theorem xor_eq_add_of_lt {k v : Nat} (c : Nat) (hv : v < 2 ^ k) : 2 ^ k * c ^^^ v = 2 ^ k * c + v := by
  have hlow : (2 ^ k * c ^^^ v) % 2 ^ k = v := by
    rw [Nat.xor_mod_two_pow, Nat.mul_mod_right, Nat.zero_xor, Nat.mod_eq_of_lt hv]
  have hhigh : (2 ^ k * c ^^^ v) / 2 ^ k = c := by
    rw [Nat.xor_div_two_pow, Nat.mul_div_cancel_left _ (Nat.two_pow_pos k), Nat.div_eq_of_lt hv,
      Nat.xor_zero]
  have h := Nat.div_add_mod (2 ^ k * c ^^^ v) (2 ^ k)
  rw [hlow, hhigh] at h
  exact h.symm

theorem xor_eq_iff (a b c : Nat) : a ^^^ b = c ↔ b = a ^^^ c := by
  constructor
  · rintro rfl
    rw [← Nat.xor_assoc, Nat.xor_self, Nat.zero_xor]
  · rintro rfl
    rw [← Nat.xor_assoc, Nat.xor_self, Nat.zero_xor]

theorem selected_xor (b₁ b₂ i g : Nat) :
    selected (b₁ ^^^ b₂) i g = selected b₁ i g ^^^ selected b₂ i g := by
  unfold selected
  simp only [Nat.shiftRight_xor_distrib, Nat.and_one_is_mod, Nat.xor_mod_two_eq_one]
  by_cases h₁ : b₁ >>> i % 2 = 1 <;> by_cases h₂ : b₂ >>> i % 2 = 1 <;> simp [h₁, h₂]

/-- The inner loop only adds generators to the state it starts from. -/
theorem genLoop_acc (b : Nat) (i : Nat) (gs : List Nat) (c : Nat) :
    genLoop b i gs c = c ^^^ genLoop b i gs 0 := by
  induction gs generalizing i c with
  | nil => simp [genLoop_nil]
  | cons g gs ih =>
    rw [genLoop_cons, genLoop_cons, ih, ih (i + 1) (if (b >>> i) &&& 1 = 1 then 0 ^^^ g else 0)]
    split <;> simp [Nat.xor_assoc]

theorem genLoop_cons_zero (b i g : Nat) (gs : List Nat) :
    genLoop b i (g :: gs) 0 = selected b i g ^^^ genLoop b (i + 1) gs 0 := by
  rw [genLoop_cons, genLoop_acc]
  unfold selected
  split <;> simp

theorem genLoop_xor (b₁ b₂ i : Nat) (gs : List Nat) :
    genLoop (b₁ ^^^ b₂) i gs 0 = genLoop b₁ i gs 0 ^^^ genLoop b₂ i gs 0 := by
  induction gs generalizing i with
  | nil => simp [genLoop_nil]
  | cons g gs ih =>
    rw [genLoop_cons_zero, genLoop_cons_zero, genLoop_cons_zero, ih, selected_xor]
    ac_rfl

theorem polymodStep_eq (c v : Nat) :
    polymodStep c v = ((c &&& 0x1ffffff) <<< 5 ^^^ v) ^^^ genLoop (c >>> 25) 0 gen 0 := by
  rw [polymodStep, genLoop_acc]

/-- One step of the polymod is linear in the state and the value together. -/
theorem polymodStep_xor (c₁ c₂ v₁ v₂ : Nat) :
    polymodStep (c₁ ^^^ c₂) (v₁ ^^^ v₂) = polymodStep c₁ v₁ ^^^ polymodStep c₂ v₂ := by
  rw [polymodStep_eq, polymodStep_eq, polymodStep_eq, Nat.shiftRight_xor_distrib, genLoop_xor,
    Nat.and_xor_distrib_right, Nat.shiftLeft_xor_distrib]
  ac_rfl

theorem foldl_polymodStep_xor : ∀ (vs ws : List Nat) (c d : Nat), vs.length = ws.length →
    (List.zipWith (· ^^^ ·) vs ws).foldl polymodStep (c ^^^ d) =
      vs.foldl polymodStep c ^^^ ws.foldl polymodStep d
  | [], [], _, _, _ => rfl
  | [], _ :: _, _, _, h => by simp at h
  | _ :: _, [], _, _, h => by simp at h
  | v :: vs, w :: ws, c, d, h => by
    simp only [List.zipWith_cons_cons, List.foldl_cons]
    rw [polymodStep_xor, foldl_polymodStep_xor vs ws _ _ (by simpa using h)]

theorem zipWith_xor_replicate_zero (ws : List Nat) :
    List.zipWith (· ^^^ ·) (List.replicate ws.length 0) ws = ws := by
  induction ws with
  | nil => rfl
  | cons w ws ih => rw [List.length_cons, List.replicate_succ, List.zipWith_cons_cons, ih,
      Nat.zero_xor]

/-- Values read from a state are the zeros read from it, plus the values read from zero. -/
theorem foldl_polymodStep_split (c : Nat) (ws : List Nat) :
    ws.foldl polymodStep c =
      (List.replicate ws.length 0).foldl polymodStep c ^^^ ws.foldl polymodStep 0 := by
  have h := foldl_polymodStep_xor (List.replicate ws.length 0) ws c 0 (by simp)
  rwa [Nat.xor_zero, zipWith_xor_replicate_zero] at h

/-- Below the generator bits, a step only shifts the state up by five bits. -/
theorem polymodStep_small {c v : Nat} (hc : c < 2 ^ 25) (hv : v < 32) :
    polymodStep c v = c * 32 + v := by
  have hb : c >>> 25 = 0 := by
    rw [Nat.shiftRight_eq_div_pow]
    exact Nat.div_eq_of_lt hc
  have hmask : c &&& 0x1ffffff = c := by
    rw [show (0x1ffffff : Nat) = 2 ^ 25 - 1 by rfl, Nat.and_two_pow_sub_one_eq_mod,
      Nat.mod_eq_of_lt hc]
  have hgen : genLoop 0 0 gen 0 = 0 := by decide
  rw [polymodStep_eq, hb, hmask, hgen, Nat.xor_zero, Nat.shiftLeft_eq, Nat.mul_comm,
    xor_eq_add_of_lt c (show v < 2 ^ 5 from hv)]

/-- Up to six values below 32 read from zero are their base-32 number. -/
theorem foldl_polymodStep_small : ∀ (cs : List Nat) (c : Nat), (∀ v ∈ cs, v < 32) →
    cs.length ≤ 6 → c < 32 ^ (6 - cs.length) →
      cs.foldl polymodStep c = cs.foldl (fun n d => n * 32 + d) c
  | [], _, _, _, _ => rfl
  | v :: cs, c, hcs, hlen, hc => by
    rw [List.length_cons] at hlen hc
    have hroom : 32 ^ (6 - cs.length) = 32 ^ (6 - (cs.length + 1)) * 32 := by
      rw [← Nat.pow_succ]
      congr 1
      omega
    have hc25 : c < 2 ^ 25 :=
      Nat.lt_of_lt_of_le hc (Nat.pow_le_pow_right (by decide) (by omega) : 32 ^ _ ≤ 32 ^ 5)
    rw [List.foldl_cons, List.foldl_cons, polymodStep_small hc25 (hcs v List.mem_cons_self)]
    exact foldl_polymodStep_small cs _ (fun w hw => hcs w (List.mem_cons_of_mem v hw)) (by omega)
      (by have := hcs v List.mem_cons_self; rw [hroom]; omega)

theorem genLoop_lt (b i : Nat) (gs : List Nat) (c : Nat) (hc : c < 2 ^ 30)
    (hgs : ∀ g ∈ gs, g < 2 ^ 30) : genLoop b i gs c < 2 ^ 30 := by
  induction gs generalizing i c with
  | nil => exact hc
  | cons g gs ih =>
    rw [genLoop_cons]
    apply ih _ _ _ fun g' hg' => hgs g' (List.mem_cons_of_mem g hg')
    split
    · exact Nat.xor_lt_two_pow hc (hgs g List.mem_cons_self)
    · exact hc

theorem polymodStep_lt (c : Nat) {v : Nat} (hv : v < 2 ^ 30) : polymodStep c v < 2 ^ 30 := by
  have hshift : (c &&& 0x1ffffff) <<< 5 < 2 ^ 30 := by
    rw [show (0x1ffffff : Nat) = 2 ^ 25 - 1 by rfl, Nat.and_two_pow_sub_one_eq_mod,
      Nat.shiftLeft_eq, show (2 : Nat) ^ 30 = 2 ^ 25 * 2 ^ 5 by rfl]
    exact Nat.mul_lt_mul_of_pos_right (Nat.mod_lt _ (Nat.two_pow_pos 25)) (Nat.two_pow_pos 5)
  exact genLoop_lt _ _ _ _ (Nat.xor_lt_two_pow hshift hv) (by decide)

theorem foldl_polymodStep_lt (vs : List Nat) {c : Nat} (hc : c < 2 ^ 30)
    (hvs : ∀ v ∈ vs, v < 2 ^ 30) : vs.foldl polymodStep c < 2 ^ 30 := by
  induction vs generalizing c with
  | nil => exact hc
  | cons v vs ih =>
    exact ih (polymodStep_lt c (hvs v List.mem_cons_self))
      fun w hw => hvs w (List.mem_cons_of_mem v hw)

/-- The six values of the checksum are the last six base-32 digits of its polymod. -/
theorem bech32Checksum_eq (hrp data : List UInt8) :
    bech32Checksum hrp data = (toDigits 32 6
      (bech32Polymod (bech32HrpExpand hrp ++ data.map UInt8.toNat ++ [0, 0, 0, 0, 0, 0]) ^^^ 1)).map
        UInt8.ofNat := by
  unfold bech32Checksum
  dsimp only
  generalize bech32Polymod _ ^^^ 1 = p
  have hdigit : ∀ i, (p >>> (5 * (5 - i))) &&& 31 = p / 32 ^ (5 - i) % 32 := by
    intro i
    rw [Nat.shiftRight_eq_div_pow, show (31 : Nat) = 2 ^ 5 - 1 by rfl,
      Nat.and_two_pow_sub_one_eq_mod, Nat.pow_mul]
  simp only [hdigit]
  simp only [List.range_succ, List.range_zero, List.nil_append, List.map_append, List.map_cons,
    List.map_nil, toDigits, Nat.div_div_eq_div_mul]
  rw [Nat.sub_self, Nat.pow_zero, Nat.div_one]
  rfl

/-- `verifyChecksum` accepts six 5-bit values after the data exactly when they are what
`bech32Checksum` computes: the polymod reads the six values, from the state after the data, as
the state the checksum reads six zeros into, with the values' base-32 number added. -/
theorem verifyChecksum_iff (hrp data : List UInt8) {cs : List UInt8} (hlen : cs.length = 6)
    (hcs : ∀ c ∈ cs, c.toNat < 32) :
    bech32VerifyChecksum hrp (data ++ cs) = true ↔ cs = bech32Checksum hrp data := by
  have hbyte : ∀ c : UInt8, c.toNat < 2 ^ 30 := fun c => Nat.lt_trans c.toNat_lt (by decide)
  have hvalues : ∀ v ∈ bech32HrpExpand hrp ++ data.map UInt8.toNat, v < 2 ^ 30 := by
    intro v hv
    simp only [bech32HrpExpand, List.mem_append, List.mem_map, List.mem_singleton] at hv
    rcases hv with ((⟨c, -, rfl⟩ | rfl) | ⟨c, -, rfl⟩) | ⟨c, -, rfl⟩
    · exact hbyte _
    · decide
    · exact hbyte _
    · exact hbyte _
  have hC : ∀ v ∈ cs.map UInt8.toNat, v < 32 := by
    intro v hv
    obtain ⟨c, hc, rfl⟩ := List.mem_map.mp hv
    exact hcs c hc
  have hClen : (cs.map UInt8.toNat).length = 6 := by rw [List.length_map, hlen]
  -- the six values read from zero are their base-32 number
  have hread : (cs.map UInt8.toNat).foldl polymodStep 0 = ofDigits 32 (cs.map UInt8.toNat) :=
    foldl_polymodStep_small _ 0 hC (by omega) (by rw [hClen]; decide)
  unfold bech32VerifyChecksum
  rw [bech32Checksum_eq, bech32Polymod, bech32Polymod, List.map_append, ← List.append_assoc,
    show ([0, 0, 0, 0, 0, 0] : List Nat) = List.replicate 6 0 from rfl]
  generalize bech32HrpExpand hrp ++ data.map UInt8.toNat = E at hvalues ⊢
  rw [List.foldl_append, List.foldl_append, foldl_polymodStep_split _ (cs.map UInt8.toNat), hClen,
    hread]
  -- the state the checksum reads six zeros into
  generalize hQ : (List.replicate 6 0).foldl polymodStep (E.foldl polymodStep 1) = Q
  have hQlt : Q < 2 ^ 30 := by
    rw [← hQ]
    exact foldl_polymodStep_lt _ (foldl_polymodStep_lt _ (by decide) hvalues) (by simp)
  have hp : Q ^^^ 1 < 32 ^ 6 := Nat.xor_lt_two_pow hQlt (by decide)
  rw [beq_iff_eq, xor_eq_iff]
  constructor
  · intro h
    rw [← h, ← hClen, toDigits_ofDigits hC, map_ofNat_map_toNat]
  · intro h
    rw [h, map_toNat_map_ofNat fun d hd => Nat.lt_trans (lt_of_mem_toDigits (by decide) hd)
      (by decide), ofDigits_toDigits, Nat.mod_eq_of_lt hp]

/-! ## Strings and the charset -/

theorem throw_bind_ne_ok {ε α β : Type} {e : ε} {f : α → Except ε β} {b : β} :
    (throw e >>= f : Except ε β) ≠ .ok b := by
  intro h
  cases h

theorem lastIndexByte_of_not_mem {s : List UInt8} {c : UInt8} (h : c ∉ s) :
    lastIndexByte s c = -1 := by
  induction s with
  | nil => rfl
  | cons b s ih =>
    have hb : b ≠ c := fun hb => h (hb ▸ List.mem_cons_self)
    rw [lastIndexByte_cons, ih fun hs => h (List.mem_cons_of_mem b hs)]
    simp [hb]

theorem lastIndexByte_append_cons (xs : List UInt8) {c : UInt8} {ys : List UInt8} (h : c ∉ ys) :
    lastIndexByte (xs ++ c :: ys) c = xs.length := by
  induction xs with
  | nil => simp [lastIndexByte_cons, lastIndexByte_of_not_mem h]
  | cons x xs ih =>
    rw [List.cons_append, lastIndexByte_cons, ih]
    simp

/-- A byte is absent, or the string splits at its last occurrence. -/
theorem split_last (s : List UInt8) (c : UInt8) :
    c ∉ s ∨ ∃ xs ys, s = xs ++ c :: ys ∧ c ∉ ys := by
  induction s with
  | nil => exact .inl List.not_mem_nil
  | cons b s ih =>
    rcases ih with hs | ⟨xs, ys, rfl, hys⟩
    · by_cases hb : b = c
      · exact .inr ⟨[], s, by rw [hb]; rfl, hs⟩
      · exact .inl (by simp [Ne.symm hb, hs])
    · exact .inr ⟨b :: xs, ys, rfl, hys⟩

theorem charset_length : charset.length = 32 := rfl

theorem separator_not_mem_charset : separator ∉ charset := by decide

theorem charset_bytes : charset = [113, 112, 122, 114, 121, 57, 120, 56, 103, 102, 50, 116, 118,
    100, 119, 48, 115, 51, 106, 110, 53, 52, 107, 104, 99, 101, 54, 109, 117, 97, 55, 108] := rfl

/-- The charset's letters are printable, lowercase, and each stands at its own position. -/
theorem charset_letters : ∀ c ∈ charset, 33 ≤ c ∧ c ≤ 126 ∧ toLowerByte c = c ∧
    charset.idxOf c < 32 ∧ charset.getD (charset.idxOf c) 0 = c := by
  -- one letter at a time: deciding the whole quantifier at once unfolds every order instance
  intro c hc
  rw [charset_bytes] at hc ⊢
  fin_cases hc <;> decide

theorem charset_positions : ∀ i : Fin 32, charset.getD i 0 ∈ charset ∧
    charset.idxOf (charset.getD i 0) = i := by decide

theorem toBytes_eq_ok_iff {chars decoded : List UInt8} :
    toBytes chars = .ok decoded ↔ (∀ c ∈ chars, c ∈ charset) ∧
      decoded = chars.map fun c => UInt8.ofNat (charset.idxOf c) := by
  induction chars generalizing decoded with
  | nil => simp [toBytes, eq_comm]
  | cons c chars ih =>
    simp only [toBytes, indexByte]
    by_cases hc : c ∈ charset
    · have hpos : ¬((charset.idxOf c : Nat) : Int) < 0 := by omega
      simp only [hc, if_true, hpos, if_false]
      split
      · rename_i e he
        simp only [reduceCtorEq, false_iff, not_and, List.mem_cons, forall_eq_or_imp, hc, true_and]
        intro hall hdec
        exact absurd (ih.mpr ⟨hall, rfl⟩) (by rw [he]; exact fun h => by cases h)
      · rename_i rest hrest
        rw [Except.ok.injEq, List.map_cons, List.forall_mem_cons]
        have := ih.mp hrest
        constructor
        · rintro rfl
          exact ⟨⟨hc, this.1⟩, by rw [Int.toNat_natCast, this.2]⟩
        · rintro ⟨⟨-, hall⟩, rfl⟩
          rw [Int.toNat_natCast, (ih.mp hrest).2]
    · simp [hc]

theorem toChars_eq_ok_iff {vs chars : List UInt8} :
    toChars vs = .ok chars ↔ (∀ v ∈ vs, v.toNat < 32) ∧
      chars = vs.map fun v => charset.getD v.toNat 0 := by
  induction vs generalizing chars with
  | nil => simp [toChars, eq_comm]
  | cons v vs ih =>
    simp only [toChars]
    by_cases hv : v.toNat < charset.length
    · rw [dif_pos hv]
      split
      · rename_i e he
        simp only [reduceCtorEq, false_iff, not_and, List.forall_mem_cons]
        intro hall hchars
        exact absurd (ih.mpr ⟨hall.2, rfl⟩) (by rw [he]; exact fun h => by cases h)
      · rename_i rest hrest
        have hget : charset.get ⟨v.toNat, hv⟩ = charset.getD v.toNat 0 := by
          simp [List.getD_eq_getElem?_getD, hv]
        rw [Except.ok.injEq, List.map_cons, List.forall_mem_cons, hget]
        have := ih.mp hrest
        constructor
        · rintro rfl
          exact ⟨⟨hv, this.1⟩, by rw [this.2]⟩
        · rintro ⟨-, rfl⟩
          rw [this.2]
    · rw [dif_neg hv]
      simp only [reduceCtorEq, false_iff, not_and, List.forall_mem_cons]
      intro h
      exact absurd h.1 hv

/-- The charset's letters come back from their positions. -/
theorem toChars_of_toBytes {chars decoded : List UInt8} (h : toBytes chars = .ok decoded) :
    toChars decoded = .ok chars ∧ ∀ v ∈ decoded, v.toNat < 32 := by
  obtain ⟨hall, rfl⟩ := Iff.mp toBytes_eq_ok_iff h
  have hpos : ∀ c ∈ chars, (UInt8.ofNat (charset.idxOf c)).toNat = charset.idxOf c := by
    intro c hc
    rw [UInt8.toNat_ofNat',
      Nat.mod_eq_of_lt (Nat.lt_trans (charset_letters c (hall c hc)).2.2.2.1 (by decide))]
  have hvals : ∀ v ∈ chars.map fun c => UInt8.ofNat (charset.idxOf c), v.toNat < 32 := by
    intro v hv
    obtain ⟨c, hc, rfl⟩ := List.mem_map.mp hv
    rw [hpos c hc]
    exact (charset_letters c (hall c hc)).2.2.2.1
  refine ⟨Iff.mpr toChars_eq_ok_iff ⟨hvals, ?_⟩, hvals⟩
  rw [List.map_map]
  conv => lhs; rw [← List.map_id chars]
  apply List.map_congr_left
  intro c hc
  rw [Function.comp_apply, hpos c hc, (charset_letters c (hall c hc)).2.2.2.2, id]

/-- Values below 32 come back from their letters. -/
theorem toBytes_of_toChars {vs chars : List UInt8} (h : toChars vs = .ok chars) :
    toBytes chars = .ok vs ∧ ∀ c ∈ chars, c ∈ charset := by
  obtain ⟨hall, rfl⟩ := Iff.mp toChars_eq_ok_iff h
  have hletter : ∀ v ∈ vs, charset.getD v.toNat 0 ∈ charset ∧
      UInt8.ofNat (charset.idxOf (charset.getD v.toNat 0)) = v := by
    intro v hv
    obtain ⟨hm, hi⟩ := charset_positions ⟨v.toNat, hall v hv⟩
    refine ⟨hm, ?_⟩
    rw [show charset.idxOf (charset.getD v.toNat 0) = v.toNat from hi, UInt8.ofNat_toNat]
  have hchars : ∀ c ∈ vs.map fun v => charset.getD v.toNat 0, c ∈ charset := by
    intro c hc
    obtain ⟨v, hv, rfl⟩ := List.mem_map.mp hc
    exact (hletter v hv).1
  refine ⟨Iff.mpr toBytes_eq_ok_iff ⟨hchars, ?_⟩, hchars⟩
  rw [List.map_map]
  conv => lhs; rw [← List.map_id vs]
  apply List.map_congr_left
  intro v hv
  rw [Function.comp_apply, (hletter v hv).2, id]

theorem find_invalid_eq_none_iff (s : List UInt8) :
    (s.find? fun c => decide (c < 33 ∨ c > 126)) = none ↔ ∀ c ∈ s, 33 ≤ c ∧ c ≤ 126 := by
  rw [List.find?_eq_none]
  simp [not_or]

theorem take_append_separator (xs ys : List UInt8) :
    (xs ++ separator :: ys).take ((xs.length : Int).toNat) = xs := by
  simp

theorem drop_append_separator (xs ys : List UInt8) :
    (xs ++ separator :: ys).drop ((xs.length : Int).toNat + 1) = ys := by
  simp

/-- What `Bech32Decode` accepts: 8 to 90 printable characters, all in one case, whose lowered
form is a nonempty human-readable part, the last `1`, and at least six letters of the charset
whose values pass the checksum; it returns the part and the values without the last six. -/
theorem bech32Decode_eq_ok {bech hrp data : List UInt8} :
    bech32Decode bech = .ok (hrp, data) ↔
      8 ≤ bech.length ∧ bech.length ≤ 90 ∧ (∀ c ∈ bech, 33 ≤ c ∧ c ≤ 126) ∧
      (bech = toLower bech ∨ bech = toUpper bech) ∧
      ∃ dataChars decoded, toLower bech = hrp ++ separator :: dataChars ∧
        separator ∉ dataChars ∧ hrp ≠ [] ∧ 6 ≤ dataChars.length ∧
        toBytes dataChars = .ok decoded ∧ bech32VerifyChecksum hrp decoded = true ∧
        data = decoded.take (decoded.length - 6) := by
  have hlower : (toLower bech).length = bech.length := List.length_map _
  constructor
  · intro h
    unfold bech32Decode at h
    dsimp only at h
    split at h
    · exact absurd h throw_bind_ne_ok
    rename_i hlen
    split at h
    · exact absurd h throw_bind_ne_ok
    rename_i hfind
    split at h
    · exact absurd h throw_bind_ne_ok
    rename_i hcase
    split at h
    · exact absurd h throw_bind_ne_ok
    rename_i hone
    split at h
    · exact absurd h throw_bind_ne_ok
    rename_i decoded hbytes
    rw [pure_bind] at h
    split at h
    · split at h <;> exact absurd h throw_bind_ne_ok
    rename_i hver
    obtain ⟨rfl, rfl⟩ := Prod.mk.inj (Except.ok.inj h)
    refine ⟨by omega, by omega, (find_invalid_eq_none_iff bech).mp hfind, ?_, ?_⟩
    · by_contra hc
      exact hcase ⟨fun h => hc (.inl h), fun h => hc (.inr h)⟩
    -- the lowered string splits at its last separator
    rcases split_last (toLower bech) separator with hnot | ⟨xs, ys, hsplit, hys⟩
    · rw [lastIndexByte_of_not_mem hnot] at hone
      omega
    rw [hsplit, lastIndexByte_append_cons xs hys] at hone hbytes hver ⊢
    simp only [List.length_append, List.length_cons] at hone
    rw [drop_append_separator] at hbytes
    rw [take_append_separator] at hver ⊢
    have hsplitlen := congrArg List.length hsplit
    simp only [hlower, List.length_append, List.length_cons] at hsplitlen
    refine ⟨ys, decoded, rfl, hys, ?_, by omega, hbytes, by simpa using hver, rfl⟩
    rintro rfl
    simp at hone
  · rintro ⟨h8, h90, hchars, hcase, dataChars, decoded, hsplit, hsep, hhrp, hlen6, hbytes, hver,
      rfl⟩
    have hone : lastIndexByte (toLower bech) separator = hrp.length := by
      rw [hsplit]
      exact lastIndexByte_append_cons hrp hsep
    have hsplitlen := congrArg List.length hsplit
    simp only [hlower, List.length_append, List.length_cons] at hsplitlen
    have hhrplen : 0 < hrp.length := List.length_pos_iff.mpr hhrp
    unfold bech32Decode
    dsimp only
    split
    · omega
    split
    · rename_i c hc
      rw [(find_invalid_eq_none_iff bech).mpr hchars] at hc
      cases hc
    split
    · rename_i hc
      exact absurd hc (by tauto)
    split
    · rename_i hc
      rw [hone] at hc
      omega
    rw [hone, hsplit, take_append_separator, drop_append_separator, hbytes]
    dsimp only
    rw [pure_bind, if_neg (by simp [hver])]
    rfl

theorem toLowerByte_toLowerByte (c : UInt8) : toLowerByte (toLowerByte c) = toLowerByte c := by
  have hc := c.toNat_lt
  unfold toLowerByte
  by_cases h : 65 ≤ c ∧ c ≤ 90
  · -- a lowered capital is no capital
    rw [if_pos h, if_neg]
    simp [UInt8.le_iff_toNat_le, UInt8.toNat_add] at h ⊢
    omega
  · rw [if_neg h, if_neg h]

theorem toLowerByte_printable (c : UInt8) (h : 33 ≤ c ∧ c ≤ 126) :
    33 ≤ toLowerByte c ∧ toLowerByte c ≤ 126 := by
  have hc := c.toNat_lt
  unfold toLowerByte
  split
  · rename_i hcap
    simp [UInt8.le_iff_toNat_le, UInt8.toNat_add] at h hcap ⊢
    omega
  · exact h

theorem toLower_toLower (s : List UInt8) : toLower (toLower s) = toLower s := by
  simp only [toLower, List.map_map]
  exact List.map_congr_left fun c _ => toLowerByte_toLowerByte c

theorem toLower_of_charset {chars : List UInt8} (h : ∀ c ∈ chars, c ∈ charset) :
    toLower chars = chars := by
  conv => rhs; rw [← List.map_id chars]
  exact List.map_congr_left fun c hc => (charset_letters c (h c hc)).2.2.1

/-- The checksum is six 5-bit values. -/
theorem bech32Checksum_values (hrp data : List UInt8) :
    (bech32Checksum hrp data).length = 6 ∧ ∀ v ∈ bech32Checksum hrp data, v.toNat < 32 := by
  rw [bech32Checksum_eq]
  refine ⟨by rw [List.length_map, length_toDigits], ?_⟩
  intro v hv
  obtain ⟨d, hd, rfl⟩ := List.mem_map.mp hv
  have hd32 : d < 32 := lt_of_mem_toDigits (by decide) hd
  rw [UInt8.toNat_ofNat', Nat.mod_eq_of_lt (Nat.lt_trans hd32 (by decide))]
  exact hd32

/-- A lowered string decodes as the string does. -/
theorem bech32Decode_toLower {bech : List UInt8} {r : List UInt8 × List UInt8}
    (h : bech32Decode bech = .ok r) : bech32Decode (toLower bech) = .ok r := by
  obtain ⟨hrp, data⟩ := r
  obtain ⟨h8, h90, hchars, -, rest⟩ := Iff.mp bech32Decode_eq_ok h
  have hlen : (toLower bech).length = bech.length := List.length_map _
  refine Iff.mpr bech32Decode_eq_ok ⟨by omega, by omega, ?_, .inl (toLower_toLower bech).symm, ?_⟩
  · intro c hc
    obtain ⟨c', hc', rfl⟩ := List.mem_map.mp hc
    exact toLowerByte_printable c' (hchars c' hc')
  · rwa [toLower_toLower]

/-- `Bech32Decode` reads back what `Bech32Encode` writes, for a nonempty lowercase
human-readable part of printable characters, 5-bit values, and at most 90 characters in all. -/
theorem bech32Decode_encode {hrp data : List UInt8} (hhrp : hrp ≠ [])
    (hprint : ∀ c ∈ hrp, 33 ≤ c ∧ c ≤ 126) (hlower : toLower hrp = hrp)
    (hdata : ∀ v ∈ data, v.toNat < 32) (hlen : hrp.length + data.length + 7 ≤ 90) :
    ∃ bech, bech32Encode hrp data = .ok bech ∧ bech32Decode bech = .ok (hrp, data) := by
  obtain ⟨hcslen, hcs⟩ := bech32Checksum_values hrp data
  have hvalues : ∀ v ∈ data ++ bech32Checksum hrp data, v.toNat < 32 := by
    intro v hv
    rcases List.mem_append.mp hv with hv | hv
    · exact hdata v hv
    · exact hcs v hv
  have hchars := Iff.mpr toChars_eq_ok_iff ⟨hvalues, rfl⟩
  generalize (data ++ bech32Checksum hrp data).map (fun v => charset.getD v.toNat 0) = chars
    at hchars
  obtain ⟨hbytes, hletters⟩ := toBytes_of_toChars hchars
  have hcharslen : chars.length = data.length + 6 := by
    rw [(Iff.mp toChars_eq_ok_iff hchars).2, List.length_map, List.length_append, hcslen]
  have hsep : separator ∉ chars := fun h => separator_not_mem_charset (hletters _ h)
  have hhrplen : 0 < hrp.length := List.length_pos_iff.mpr hhrp
  have hform : hrp ++ [separator] ++ chars = hrp ++ separator :: chars := by simp
  -- the written string is already lowercase
  have hbech : toLower (hrp ++ [separator] ++ chars) = hrp ++ [separator] ++ chars := by
    have hsepl : toLowerByte separator = separator := by decide
    have hcharsl := toLower_of_charset hletters
    unfold toLower at hlower hcharsl ⊢
    simp only [List.map_append, List.map_cons, List.map_nil, hlower, hcharsl, hsepl]
  refine ⟨hrp ++ [separator] ++ chars, by rw [bech32Encode, hchars], ?_⟩
  refine Iff.mpr bech32Decode_eq_ok ⟨?_, ?_, ?_, .inl hbech.symm, chars, _, hbech.trans hform, hsep,
    hhrp, by omega, hbytes, (verifyChecksum_iff hrp data hcslen hcs).mpr rfl, ?_⟩
  · simp only [List.length_append, List.length_singleton]
    omega
  · simp only [List.length_append, List.length_singleton]
    omega
  · intro c hc
    simp only [List.mem_append, List.mem_singleton] at hc
    rcases hc with (hc | rfl) | hc
    · exact hprint c hc
    · decide
    · exact ⟨(charset_letters c (hletters c hc)).1, (charset_letters c (hletters c hc)).2.1⟩
  · rw [List.length_append, hcslen, Nat.add_sub_cancel, List.take_left' rfl]

/-- `Bech32Encode` writes back the lowered string of what `Bech32Decode` accepts: the six
values after the data pass the checksum, so they are the checksum of the data. -/
theorem bech32Encode_decode {bech hrp data : List UInt8} (h : bech32Decode bech = .ok (hrp, data)) :
    bech32Encode hrp data = .ok (toLower bech) := by
  obtain ⟨-, -, -, -, dataChars, decoded, hsplit, -, -, hlen6, hbytes, hver, rfl⟩ :=
    Iff.mp bech32Decode_eq_ok h
  obtain ⟨hchars, hvalues⟩ := toChars_of_toBytes hbytes
  have hdecodedlen : decoded.length = dataChars.length := by
    rw [(Iff.mp toBytes_eq_ok_iff hbytes).2, List.length_map]
  -- the values split into the data and six checksum values
  have hsplitdec := List.take_append_drop (decoded.length - 6) decoded
  have hcslen : (decoded.drop (decoded.length - 6)).length = 6 := by
    rw [List.length_drop]
    omega
  have hcs : ∀ v ∈ decoded.drop (decoded.length - 6), v.toNat < 32 :=
    fun v hv => hvalues v (List.mem_of_mem_drop hv)
  rw [← hsplitdec] at hver
  have hcheck := (verifyChecksum_iff hrp _ hcslen hcs).mp hver
  rw [bech32Encode, ← hcheck, hsplitdec, hchars, hsplit]
  simp

/-! ## The human-readable part of an accepted string -/

theorem toLowerByte_eq_separator_iff (c : UInt8) : toLowerByte c = separator ↔ c = separator := by
  have hc := c.toNat_lt
  unfold toLowerByte separator
  split
  · rename_i hcap
    simp only [← UInt8.toNat_inj, UInt8.toNat_add]
    simp [UInt8.le_iff_toNat_le] at hcap ⊢
    omega
  · exact Iff.rfl

theorem lastIndexByte_toLower (s : List UInt8) :
    lastIndexByte (toLower s) separator = lastIndexByte s separator := by
  induction s with
  | nil => rfl
  | cons b s ih =>
    simp only [toLower, List.map_cons] at ih ⊢
    rw [lastIndexByte_cons, lastIndexByte_cons, ih]
    simp only [toLowerByte_eq_separator_iff]

/-- The values `Bech32Decode` returns are 5-bit values. -/
theorem bech32Decode_values {bech hrp data : List UInt8} (h : bech32Decode bech = .ok (hrp, data)) :
    ∀ v ∈ data, v.toNat < 32 := by
  obtain ⟨-, -, -, -, dataChars, decoded, -, -, -, -, hbytes, -, rfl⟩ := Iff.mp bech32Decode_eq_ok h
  exact fun v hv => (toChars_of_toBytes hbytes).2 v (List.mem_of_mem_take hv)

/-- In a string `Bech32Decode` accepts, the last `1` stands right after the human-readable part,
which is the lowered text before it. -/
theorem bech32Decode_hrp {bech hrp data : List UInt8} (h : bech32Decode bech = .ok (hrp, data)) :
    lastIndexByte bech separator = hrp.length ∧
      toLower (bech.take (hrp.length + 1)) = hrp ++ [separator] ∧
      toLower (bech.take hrp.length) = hrp := by
  obtain ⟨-, -, -, -, dataChars, decoded, hsplit, hsep, -⟩ := Iff.mp bech32Decode_eq_ok h
  have htake : ∀ k, toLower (bech.take k) = (hrp ++ separator :: dataChars).take k := by
    intro k
    rw [← hsplit]
    exact List.map_take
  refine ⟨?_, ?_, ?_⟩
  · rw [← lastIndexByte_toLower, hsplit, lastIndexByte_append_cons hrp hsep]
  · rw [htake, List.take_append, List.take_of_length_le (by omega),
      show hrp.length + 1 - hrp.length = 1 by omega]
    rfl
  · rw [htake, List.take_left' rfl]

end KuskCore.Bech32
