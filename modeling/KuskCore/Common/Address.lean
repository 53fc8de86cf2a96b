import KuskCore.Common.Bech32

/-!
# Segwit addresses

`encodeSegWitAddress`, `decodeSegWitAddress`, `DecodeAddress` and the two address kinds of
`common/address.go`, and `IsBech32SegwitPrefix` of `consensus/general.go`. An address is the
bech32 string of a network's human-readable part and the values of a witness version and of its
program regrouped into 5-bit values; `encodeSegWitAddress` checks what it writes by decoding it.

The results: for a network whose human-readable part has at least two printable lowercase
characters and fits the 90-character limit, the address of every 20-byte or 32-byte program
decodes back to itself (`segwitAddress_roundTrip`), and every string that `DecodeAddress`
accepts is encoded back as its lowered form. The parts of the three networks, `kk`, `tk` and `sk`,
have the two characters that `DecodeAddress` needs: it looks for the last `1` past the second
character.
-/

namespace KuskCore.Segwit

open Bech32

/-- `consensus.Params`, of which the address functions read the human-readable part only. -/
structure Params where
  bech32HRPSegwit : List UInt8
  deriving DecidableEq, Repr

/-- `MainNetParams`. -/
def mainNetParams : Params := ⟨ascii "kk"⟩

/-- `TestNetParams`. -/
def testNetParams : Params := ⟨ascii "tk"⟩

/-- `SoloNetParams`. -/
def soloNetParams : Params := ⟨ascii "sk"⟩

/-- `consensus.IsBech32SegwitPrefix`: the lowered text up to the last `1` is the network's part
and the `1`. -/
def isBech32SegwitPrefix (hrpPart : List UInt8) (params : Params) : Bool :=
  toLower hrpPart == params.bech32HRPSegwit ++ [separator]

/-- The errors of the address functions. -/
inductive AddressError where
  /-- An error of the bech32 package, passed on. -/
  | bech32 (e : Bech32Error)
  /-- "no witness version". -/
  | noWitnessVersion
  /-- "invalid witness version: %v". -/
  | invalidWitnessVersion (version : UInt8)
  /-- "invalid data length". -/
  | invalidDataLength
  /-- "invalid data length for witness version 0: %v". -/
  | invalidDataLengthForVersion0 (length : Nat)
  /-- "invalid segwit address: %v": the check by decoding failed. -/
  | invalidSegwitAddress (cause : AddressError)
  /-- "invalid segwit address": the check decoded another version or program. -/
  | segwitMismatch
  /-- `ErrUnsupportedWitnessVer`. -/
  | unsupportedWitnessVer
  /-- `ErrUnsupportedWitnessProgLen`. -/
  | unsupportedWitnessProgLen
  /-- `ErrUnknownAddressType`. -/
  | unknownAddressType
  /-- "witness program must be 20 bytes for p2wpkh". -/
  | p2wpkhProgramLength
  /-- "witness program must be 32 bytes for p2wsh". -/
  | p2wshProgramLength
  deriving DecidableEq, Repr

/-- `AddressWitnessPubKeyHash`. -/
structure AddressWitnessPubKeyHash where
  hrp : List UInt8
  witnessVersion : UInt8
  witnessProgram : Vector UInt8 20
  deriving DecidableEq, Repr

/-- `AddressWitnessScriptHash`. -/
structure AddressWitnessScriptHash where
  hrp : List UInt8
  witnessVersion : UInt8
  witnessProgram : Vector UInt8 32
  deriving DecidableEq, Repr

/-- The values of the `Address` interface that `DecodeAddress` returns. -/
inductive Address where
  | witnessPubKeyHash (a : AddressWitnessPubKeyHash)
  | witnessScriptHash (a : AddressWitnessScriptHash)
  deriving DecidableEq, Repr

/-- `newAddressWitnessPubKeyHash`. -/
def newAddressWitnessPubKeyHash (hrp witnessProg : List UInt8) :
    Except AddressError AddressWitnessPubKeyHash :=
  if h : witnessProg.length = 20 then
    .ok ⟨toLower hrp, 0, ⟨witnessProg.toArray, by rw [List.size_toArray, h]⟩⟩
  else .error .p2wpkhProgramLength

/-- `newAddressWitnessScriptHash`. -/
def newAddressWitnessScriptHash (hrp witnessProg : List UInt8) :
    Except AddressError AddressWitnessScriptHash :=
  if h : witnessProg.length = 32 then
    .ok ⟨toLower hrp, 0, ⟨witnessProg.toArray, by rw [List.size_toArray, h]⟩⟩
  else .error .p2wshProgramLength

/-- `decodeSegWitAddress`: the witness version and the program of a bech32 string. -/
def decodeSegWitAddress (address : List UInt8) : Except AddressError (UInt8 × List UInt8) :=
  match bech32Decode address with
  | .error e => .error (.bech32 e)
  | .ok (_, data) =>
    match data with
    | [] => .error .noWitnessVersion
    | version :: rest =>
      if version > 16 then .error (.invalidWitnessVersion version)
      else
        match convertBits rest 5 8 false with
        | .error e => .error (.bech32 e)
        | .ok regrouped =>
          if regrouped.length < 2 ∨ regrouped.length > 40 then .error .invalidDataLength
          else if version = 0 ∧ regrouped.length ≠ 20 ∧ regrouped.length ≠ 32 then
            .error (.invalidDataLengthForVersion0 regrouped.length)
          else .ok (version, regrouped)

/-- `encodeSegWitAddress`: the bech32 string of the version and the regrouped program, checked
by decoding it. -/
def encodeSegWitAddress (hrp : List UInt8) (witnessVersion : UInt8)
    (witnessProgram : List UInt8) : Except AddressError (List UInt8) :=
  match convertBits witnessProgram 8 5 true with
  | .error e => .error (.bech32 e)
  | .ok converted =>
    let combined := witnessVersion :: converted
    match bech32Encode hrp combined with
    | .error e => .error (.bech32 e)
    | .ok bech =>
      match decodeSegWitAddress bech with
      | .error e => .error (.invalidSegwitAddress e)
      | .ok (version, program) =>
        if version ≠ witnessVersion ∨ program ≠ witnessProgram then .error .segwitMismatch
        else .ok bech

/-- `DecodeAddress`: only segwit addresses of the network's part are known. -/
def decodeAddress (addr : List UInt8) (param : Params) : Except AddressError Address :=
  let oneIndex := lastIndexByte addr separator
  if oneIndex > 1 then
    let hrpPart := addr.take (oneIndex.toNat + 1)
    if isBech32SegwitPrefix hrpPart param then
      match decodeSegWitAddress addr with
      | .error e => .error e
      | .ok (witnessVer, witnessProg) =>
        -- only version 0, P2WPKH and P2WSH, is supported
        if witnessVer ≠ 0 then .error .unsupportedWitnessVer
        else
          let hrp := hrpPart.take (hrpPart.length - 1)
          if witnessProg.length = 20 then
            (newAddressWitnessPubKeyHash hrp witnessProg).map .witnessPubKeyHash
          else if witnessProg.length = 32 then
            (newAddressWitnessScriptHash hrp witnessProg).map .witnessScriptHash
          else .error .unsupportedWitnessProgLen
    else .error .unknownAddressType
  else .error .unknownAddressType

/-- `AddressWitnessPubKeyHash.EncodeAddress`: the empty string when encoding fails. -/
def AddressWitnessPubKeyHash.encodeAddress (a : AddressWitnessPubKeyHash) : List UInt8 :=
  match encodeSegWitAddress a.hrp a.witnessVersion a.witnessProgram.toList with
  | .ok str => str
  | .error _ => []

/-- `AddressWitnessScriptHash.EncodeAddress`. -/
def AddressWitnessScriptHash.encodeAddress (a : AddressWitnessScriptHash) : List UInt8 :=
  match encodeSegWitAddress a.hrp a.witnessVersion a.witnessProgram.toList with
  | .ok str => str
  | .error _ => []

/-- `EncodeAddress` of the interface. -/
def Address.encodeAddress : Address → List UInt8
  | .witnessPubKeyHash a => a.encodeAddress
  | .witnessScriptHash a => a.encodeAddress

/-- `ScriptAddress` of the interface: the witness program. -/
def Address.scriptAddress : Address → List UInt8
  | .witnessPubKeyHash a => a.witnessProgram.toList
  | .witnessScriptHash a => a.witnessProgram.toList

/-- `Hrp` of both kinds. -/
def Address.hrp : Address → List UInt8
  | .witnessPubKeyHash a => a.hrp
  | .witnessScriptHash a => a.hrp

/-- `WitnessVersion` of both kinds. -/
def Address.witnessVersion : Address → UInt8
  | .witnessPubKeyHash a => a.witnessVersion
  | .witnessScriptHash a => a.witnessVersion

/-- `IsForNet` of the interface. -/
def Address.isForNet (param : Params) : Address → Bool
  | .witnessPubKeyHash a => a.hrp == param.bech32HRPSegwit
  | .witnessScriptHash a => a.hrp == param.bech32HRPSegwit

/-! ## Decoding -/

/-- The address kind `DecodeAddress` builds for a program: P2WPKH for 20 bytes, P2WSH for 32. -/
def programAddress (hrp witnessProg : List UInt8) : Except AddressError Address :=
  if witnessProg.length = 20 then (newAddressWitnessPubKeyHash hrp witnessProg).map .witnessPubKeyHash
  else if witnessProg.length = 32 then
    (newAddressWitnessScriptHash hrp witnessProg).map .witnessScriptHash
  else .error .unsupportedWitnessProgLen

theorem programAddress_toLower (hrp p : List UInt8) :
    programAddress (toLower hrp) p = programAddress hrp p := by
  simp only [programAddress, newAddressWitnessPubKeyHash, newAddressWitnessScriptHash,
    toLower_toLower]

/-- The address of a 20-byte or 32-byte program: its part lowered, version 0, the program. -/
theorem programAddress_eq_ok (hrp : List UInt8) {p : List UInt8} (hp : p.length = 20 ∨ p.length = 32) :
    ∃ a, programAddress hrp p = .ok a ∧ a.hrp = toLower hrp ∧ a.witnessVersion = 0 ∧
      a.scriptAddress = p := by
  unfold programAddress newAddressWitnessPubKeyHash newAddressWitnessScriptHash
  rcases hp with hp | hp
  · exact ⟨_, by rw [if_pos hp, dif_pos hp]; rfl, rfl, rfl, by simp [Address.scriptAddress]⟩
  · exact ⟨_, by rw [if_neg (by omega), if_pos hp, dif_pos hp]; rfl, rfl, rfl,
      by simp [Address.scriptAddress]⟩

theorem isForNet_iff (a : Address) (param : Params) :
    a.isForNet param = true ↔ a.hrp = param.bech32HRPSegwit := by
  cases a <;> simp [Address.isForNet, Address.hrp]

theorem length_scriptAddress (a : Address) :
    a.scriptAddress.length = 20 ∨ a.scriptAddress.length = 32 := by
  cases a with
  | witnessPubKeyHash a => exact .inl (by simp [Address.scriptAddress])
  | witnessScriptHash a => exact .inr (by simp [Address.scriptAddress])

theorem encodeAddress_eq (a : Address) :
    a.encodeAddress = match encodeSegWitAddress a.hrp a.witnessVersion a.scriptAddress with
      | .ok str => str
      | .error _ => [] := by
  cases a <;> rfl

theorem decodeSegWitAddress_eq_ok {address : List UInt8} {version : UInt8} {p : List UInt8}
    (h : decodeSegWitAddress address = .ok (version, p)) :
    ∃ hrp values, bech32Decode address = .ok (hrp, version :: values) ∧
      convertBits values 5 8 false = .ok p := by
  unfold decodeSegWitAddress at h
  split at h
  · cases h
  rename_i hrp data hdec
  split at h
  · cases h
  rename_i version' rest
  split at h
  · cases h
  split at h
  · cases h
  rename_i regrouped hconv
  split at h
  · cases h
  split at h
  · cases h
  obtain ⟨rfl, rfl⟩ := Prod.mk.inj (Except.ok.inj h)
  exact ⟨hrp, rest, hdec, hconv⟩

theorem decodeSegWitAddress_of {address hrp values p : List UInt8}
    (hdec : bech32Decode address = .ok (hrp, 0 :: values))
    (hp : convertBits values 5 8 false = .ok p) (hlen : p.length = 20 ∨ p.length = 32) :
    decodeSegWitAddress address = .ok (0, p) := by
  unfold decodeSegWitAddress
  rw [hdec]
  dsimp only
  rw [if_neg (by decide), hp]
  dsimp only
  rw [if_neg (by omega), if_neg (by omega)]

/-- Once `Bech32Decode` accepts the string, `DecodeAddress` reads the network from the decoded
human-readable part, since the last `1` stands right after it; it knows the network only when
that part has two characters or more. -/
theorem decodeAddress_eq {s hrp data : List UInt8} (hdec : bech32Decode s = .ok (hrp, data))
    (param : Params) :
    decodeAddress s param =
      if 1 < hrp.length ∧ hrp = param.bech32HRPSegwit then
        match decodeSegWitAddress s with
        | .error e => .error e
        | .ok (witnessVer, witnessProg) =>
          if witnessVer ≠ 0 then .error .unsupportedWitnessVer
          else programAddress hrp witnessProg
      else .error .unknownAddressType := by
  obtain ⟨hone, hpart, hhrp⟩ := bech32Decode_hrp hdec
  have hpartlen : (s.take (hrp.length + 1)).length = hrp.length + 1 := by
    have := congrArg List.length hpart
    rwa [toLower, List.length_map, List.length_append, List.length_singleton] at this
  have htake : (s.take (hrp.length + 1)).take ((s.take (hrp.length + 1)).length - 1) =
      s.take hrp.length := by
    rw [hpartlen, Nat.add_sub_cancel, List.take_take, Nat.min_eq_left (by omega)]
  -- the part before the last 1, lowered, is the decoded part
  have hnew : ∀ p, programAddress (s.take hrp.length) p = programAddress hrp p := by
    intro p
    rw [← programAddress_toLower, hhrp]
  unfold decodeAddress
  dsimp only
  rw [hone, Int.toNat_natCast]
  by_cases hlong : 1 < hrp.length
  · rw [if_pos (by omega)]
    by_cases hnet : hrp = param.bech32HRPSegwit
    · have hsegwit : isBech32SegwitPrefix (s.take (hrp.length + 1)) param = true := by
        rw [isBech32SegwitPrefix, hpart, hnet]
        exact beq_self_eq_true _
      rw [if_pos hsegwit, if_pos ⟨hlong, hnet⟩, htake]
      unfold programAddress at hnew
      unfold programAddress
      simp only [hnew]
    · have hsegwit : isBech32SegwitPrefix (s.take (hrp.length + 1)) param = false := by
        rw [isBech32SegwitPrefix, hpart, beq_eq_false_iff_ne]
        exact fun h => hnet (List.append_cancel_right h)
      rw [hsegwit, if_neg Bool.false_ne_true, if_neg fun h => hnet h.2]
  · rw [if_neg (by omega), if_neg fun h => hlong h.1]

/-- What an address that `DecodeAddress` returns is made of: the decoded part, version 0, and
the program regrouped from the decoded values. -/
theorem decodeAddress_eq_ok {s : List UInt8} {param : Params} {a : Address}
    (h : decodeAddress s param = .ok a) :
    ∃ values, bech32Decode s = .ok (a.hrp, 0 :: values) ∧ a.witnessVersion = 0 ∧
      convertBits values 5 8 false = .ok a.scriptAddress := by
  have hsome : ∃ ver p, decodeSegWitAddress s = .ok (ver, p) := by
    unfold decodeAddress at h
    dsimp only at h
    split at h
    · split at h
      · split at h
        · cases h
        · rename_i ver p hseg
          exact ⟨ver, p, hseg⟩
      · cases h
    · cases h
  obtain ⟨ver, p, hseg⟩ := hsome
  obtain ⟨hrp, values, hdec, hconv⟩ := decodeSegWitAddress_eq_ok hseg
  have hlower : toLower hrp = hrp := by
    have hhrp := (bech32Decode_hrp hdec).2.2
    calc toLower hrp = toLower (toLower (s.take hrp.length)) := by rw [hhrp]
      _ = hrp := by rw [toLower_toLower, hhrp]
  rw [decodeAddress_eq hdec, hseg] at h
  dsimp only at h
  split at h
  · split at h
    · cases h
    rename_i hver
    obtain rfl : ver = 0 := Decidable.not_not.mp hver
    have hlen : p.length = 20 ∨ p.length = 32 := by
      unfold programAddress at h
      split at h
      · exact .inl ‹_›
      · split at h
        · exact .inr ‹_›
        · cases h
    obtain ⟨a', ha', hhrp', hver', hprog'⟩ := programAddress_eq_ok hrp hlen
    obtain rfl : a' = a := Except.ok.inj (ha'.symm.trans h)
    exact ⟨values, by rw [hhrp', hlower]; exact hdec, hver', by rw [hprog']; exact hconv⟩
  · cases h

/-! ## Encoding -/

theorem encodeSegWitAddress_of {hrp p values bech : List UInt8}
    (hconv : convertBits p 8 5 true = .ok values)
    (henc : bech32Encode hrp (0 :: values) = .ok bech)
    (hseg : decodeSegWitAddress bech = .ok (0, p)) : encodeSegWitAddress hrp 0 p = .ok bech := by
  unfold encodeSegWitAddress
  rw [hconv]
  dsimp only
  rw [henc]
  dsimp only
  rw [hseg]
  dsimp only
  rw [if_neg (by simp)]

/-- For a nonempty lowercase part of printable characters and a 20-byte or 32-byte program that
fit 90 characters, the address is written, and it decodes to version 0 and the program. -/
theorem encodeSegWitAddress_ok {hrp p : List UInt8} (hhrp : hrp ≠ [])
    (hprint : ∀ c ∈ hrp, 33 ≤ c ∧ c ≤ 126) (hlower : toLower hrp = hrp)
    (hp : p.length = 20 ∨ p.length = 32) (hfit : hrp.length + (8 * p.length + 4) / 5 + 8 ≤ 90) :
    ∃ bech values, encodeSegWitAddress hrp 0 p = .ok bech ∧
      bech32Decode bech = .ok (hrp, 0 :: values) ∧ decodeSegWitAddress bech = .ok (0, p) := by
  obtain ⟨values, hconv, hvlen, hvals, hback⟩ := convertBits_roundTrip p
  have hdata : ∀ v ∈ (0 : UInt8) :: values, v.toNat < 32 := by
    intro v hv
    rcases List.mem_cons.mp hv with rfl | hv
    · decide
    · exact hvals v hv
  obtain ⟨bech, henc, hdec⟩ := bech32Decode_encode hhrp hprint hlower hdata
    (by rw [List.length_cons, hvlen]; omega)
  have hseg := decodeSegWitAddress_of hdec hback hp
  exact ⟨bech, values, encodeSegWitAddress_of hconv henc hseg, hdec, hseg⟩

/-- The address of a program for a part that `encodeSegWitAddress` accepts is encoded as the
string that check decoded. -/
theorem encodeAddress_programAddress (hrp : List UInt8) {p : List UInt8} (hhrp : hrp ≠ [])
    (hprint : ∀ c ∈ hrp, 33 ≤ c ∧ c ≤ 126) (hlower : toLower hrp = hrp)
    (hp : p.length = 20 ∨ p.length = 32) (hfit : hrp.length + (8 * p.length + 4) / 5 + 8 ≤ 90) :
    ∃ a values, programAddress hrp p = .ok a ∧ a.hrp = hrp ∧ a.scriptAddress = p ∧
      bech32Decode a.encodeAddress = .ok (hrp, 0 :: values) ∧
      decodeSegWitAddress a.encodeAddress = .ok (0, p) := by
  obtain ⟨bech, values, henc, hdec, hseg⟩ := encodeSegWitAddress_ok hhrp hprint hlower hp hfit
  obtain ⟨a, ha, hahrp, haver, haprog⟩ := programAddress_eq_ok hrp hp
  have hcode : a.encodeAddress = bech := by
    rw [encodeAddress_eq, hahrp, haver, haprog, hlower, henc]
  exact ⟨a, values, ha, by rw [hahrp, hlower], haprog, by rw [hcode]; exact hdec,
    by rw [hcode]; exact hseg⟩

/-! ## Round trips -/

/-- Segwit addresses round-trip for a network whose part has two or more printable lowercase
characters and leaves the address within 90 characters: the address of every 20-byte or 32-byte
program decodes back to itself, for that network. Every string `DecodeAddress` accepts is
encoded back as its lowered form. Below these, `Bech32Decode` reads back what `Bech32Encode`
writes, and bytes to 5-bit values and back is the identity. -/
theorem segwitAddress_roundTrip :
    (∀ (param : Params) (p : List UInt8), 2 ≤ param.bech32HRPSegwit.length →
      (∀ c ∈ param.bech32HRPSegwit, 33 ≤ c ∧ c ≤ 126) →
      toLower param.bech32HRPSegwit = param.bech32HRPSegwit →
      (p.length = 20 ∧ param.bech32HRPSegwit.length ≤ 50 ∨
        p.length = 32 ∧ param.bech32HRPSegwit.length ≤ 30) →
      ∃ a, programAddress param.bech32HRPSegwit p = .ok a ∧
        decodeAddress a.encodeAddress param = .ok a ∧ a.scriptAddress = p ∧
        a.isForNet param = true) ∧
    (∀ (s : List UInt8) (param : Params) (a : Address), decodeAddress s param = .ok a →
      a.encodeAddress = toLower s) ∧
    (∀ hrp data : List UInt8, hrp ≠ [] → (∀ c ∈ hrp, 33 ≤ c ∧ c ≤ 126) → toLower hrp = hrp →
      (∀ v ∈ data, v.toNat < 32) → hrp.length + data.length + 7 ≤ 90 →
      ∃ bech, bech32Encode hrp data = .ok bech ∧ bech32Decode bech = .ok (hrp, data)) ∧
    ∀ x : List UInt8, ∃ values, convertBits x 8 5 true = .ok values ∧
      convertBits values 5 8 false = .ok x := by
  refine ⟨?_, ?_, fun hrp data => bech32Decode_encode, ?_⟩
  · -- an address of the network decodes back to itself
    intro param p hlen hprint hlower hfit
    have hp : p.length = 20 ∨ p.length = 32 := by omega
    obtain ⟨a, values, ha, hahrp, haprog, hdec, hseg⟩ :=
      encodeAddress_programAddress param.bech32HRPSegwit
        (List.ne_nil_of_length_pos (by omega)) hprint hlower hp (by omega)
    refine ⟨a, ha, ?_, haprog, (isForNet_iff a param).mpr hahrp⟩
    rw [decodeAddress_eq hdec, if_pos ⟨by omega, rfl⟩, hseg]
    dsimp only
    rw [if_neg (by decide), ha]
  · -- an accepted string is written back lowered
    intro s param a h
    obtain ⟨values, hdec, hver, hconv⟩ := decodeAddress_eq_ok h
    have hback := convertBits_values_roundTrip
      (fun v hv => bech32Decode_values hdec v (List.mem_cons_of_mem _ hv)) hconv
    have hseg := decodeSegWitAddress_of (bech32Decode_toLower hdec) hconv (length_scriptAddress a)
    rw [encodeAddress_eq, hver, encodeSegWitAddress_of hback (bech32Encode_decode hdec) hseg]
  · intro x
    obtain ⟨values, hconv, -, -, hback⟩ := convertBits_roundTrip x
    exact ⟨values, hconv, hback⟩

theorem segwitAddress_roundTrip_mainNet :
    ∃ a, programAddress (ascii "kk") (List.replicate 20 0) = .ok a ∧
      decodeAddress a.encodeAddress mainNetParams = .ok a ∧
      a.scriptAddress = List.replicate 20 0 ∧ a.isForNet mainNetParams = true :=
  And.left segwitAddress_roundTrip mainNetParams (List.replicate 20 0) (by decide) (by decide +kernel)
    (by decide) (by decide)

end KuskCore.Segwit
