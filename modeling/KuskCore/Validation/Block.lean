import Mathlib
import KuskCore.GoMap
import KuskCore.WorkerPool
import KuskCore.Merkle.Tree
import KuskCore.Types.Block
import KuskCore.Validation.Tx
import KuskCore.Validation.Conservation
import KuskCore.Casper.Schedule
import KuskCore.Crypto.Chainkd

/-!
# Block validation

`protocol/validation/block.go`, with `ValidateTxs` of `tx.go`. `ValidateBlock` checks the header
against its parent (`validateBlockHeader`), validates the transactions, adds up their `GasUsed`
as `uint64`s against `MaxBlockGas` (`checkBlockGas`), checks the coinbase's outputs against the
checkpoint's rewards (`checkCoinbaseAmount`) and compares the Merkle root of the transactions'
IDs with the header's.

* `validateTxs_pool`: `ValidateTxs` hands the transactions to at most `NumCPU + 1` goroutines.
  Every interleaving of them has at most `4 n` steps and can be carried on until the main
  routine has collected the `n` results, and then result `i` is `ValidateTx` of transaction `i`:
  the list `validateTxs`, which is what `validateBlock` reads.
* `verifyBlockSignature_eq_ok`: the signature passes exactly when the checkpoint has a validator
  due at the header's time, whose key decodes and verifies the block witness; the keys
  `applyVotes` files votes under are `hex.EncodeToString` of the vote, which `hex.DecodeString`
  reads back (`hexDecode_hexString`).
* `checkBlockGas_eq_ok`: with the `GasUsed` of every valid transaction a non-negative `int64`, the
  loop accepts exactly when every transaction is valid and their `GasUsed` add up to at most
  `MaxBlockGas`: the `uint64` sum never wraps before it passes the limit.
* `coinbasePayouts_eq` and `checkoutRewardCoinbase_eq_ok`: the coinbase's outputs, all but a first
  one of amount zero, are tallied by control program, and with every reward positive the coinbase
  passes exactly when the tally is the checkpoint's `Rewards`.
* `validateBlock_accepts`: from the spec lemma of each check, what a block `ValidateBlock` accepts
  is, header, transactions, gas, coinbase and Merkle root.

The node's clock (`time.Now`, in milliseconds), the header's `Hash()` (the entry ID
`mapBlockHeader` gives), the network's Casper parameters, Ed25519's verification and the Merkle
tree's hashes are the fields of `BlockContext`. The signature check asks `Checkpoint.GetValidator`
of `Casper.Schedule` for the validator due at the header's time, decodes its public key with
`hex.DecodeString` (`hexDecode`) and copies it into an `XPub`; `GetValidator`'s division by zero
and the dereference of a nil validator are `BlockError.panic`. Go reads the checkpoint's `Rewards`
from the checkpoint; Casper's model of the checkpoint does not keep them, so they come as an
argument of their own. Go keys the coinbase's map and `Rewards` by the hex of a control program,
which is one to one; here they are keyed by the program.
-/

namespace KuskCore.Validation

open KuskCore.Bc KuskCore.Types KuskCore.Vm GoInt

/-- The texts `ErrWrongCoinbaseTransaction` is wrapped with. -/
inductive CoinbaseError where
  | blockEmpty
  | outputTypeOrAsset
  | outputNumberOrAmount
  | outputNumber
  | outputAmount
  deriving DecidableEq, Repr

/-- The errors of `hex.DecodeString`: `InvalidByteError` with the byte, and `ErrLength`. -/
inductive HexError where
  | invalidByte (b : UInt8)
  | length
  deriving DecidableEq, Repr

/-- The errors of `validation/block.go`, with "fail to verify block header signature", the error
of decoding a validator's key, an error of a transaction with its index and the number of
transactions ("validate of transaction %d of %d"), and a panic: of `NewTx` on a transaction
`MapTx` cannot map, of `GetValidator` on a checkpoint without validators, or of a nil validator
being read. -/
inductive BlockError where
  | badTimestamp
  | mismatchedBlock
  | mismatchedMerkleRoot
  | misorderedBlockHeight
  | overBlockLimit
  | versionRegression
  | blockSignature
  | hex (e : HexError)
  | wrongCoinbase (reason : CoinbaseError)
  | tx (i n : Nat) (e : ValidationError)
  | panic
  deriving DecidableEq

/-- The part of `consensus.ActiveNetParams` that block validation reads; an epoch has a block. -/
structure BlockParams where
  blockTimeInterval : Nat
  maxTimeOffsetMs : Nat
  blocksOfEpoch : Nat
  blocksOfEpoch_pos : 0 < blocksOfEpoch

/-- `MainNetParams`. -/
def mainNetBlockParams : BlockParams := ⟨6000, 3000, 10, Nat.succ_pos 9⟩

/-- `consensus.MaxBlockGas`. -/
def maxBlockGas : Nat := 10000000

/-- What block validation reads besides the block, its parent and the checkpoint:
`ed25519Verify pk msg sig` is `ed25519.Verify`. -/
structure BlockContext where
  params : BlockParams
  now : Nat
  headerHash : BlockHeader → Hash
  casperConfig : Protocol.CasperConfig
  ed25519Verify : List UInt8 → List UInt8 → List UInt8 → Bool
  leafHash : Hash → Hash
  interiorHash : Hash → Hash → Hash
  emptyHash : Hash

/-! ## The header -/

section Header

variable (c : BlockContext)

/-- `checkBlockTime`: no sooner than `BlockTimeInterval` after the parent and no later than
`MaxTimeOffsetMs` after the node's clock, both sums in `uint64`. -/
def checkBlockTime (b parent : BlockHeader) : Except BlockError Unit :=
  if b.timestamp < uint64 (parent.timestamp + c.params.blockTimeInterval) then .error .badTimestamp
  else if b.timestamp > uint64 (c.now + c.params.maxTimeOffsetMs) then .error .badTimestamp
  else .ok ()

/-- `fromHexChar`: the value of a hex digit of either case. -/
def fromHexChar (c : UInt8) : Option UInt8 :=
  -- '0' to '9', 'a' to 'f', 'A' to 'F'
  if 48 ≤ c ∧ c ≤ 57 then some (c - 48)
  else if 97 ≤ c ∧ c ≤ 102 then some (c - 97 + 10)
  else if 65 ≤ c ∧ c ≤ 70 then some (c - 65 + 10)
  else none

/-- `hex.DecodeString` on a string's bytes: two digits a byte, the first bad digit reported, and an
odd length reported once its last digit has been checked. -/
def hexDecode : List UInt8 → Except HexError (List UInt8)
  | [] => .ok []
  | [c] =>
    match fromHexChar c with
    | some _ => .error .length
    | none => .error (.invalidByte c)
  | c₁ :: c₂ :: rest =>
    match fromHexChar c₁, fromHexChar c₂ with
    | none, _ => .error (.invalidByte c₁)
    | some _, none => .error (.invalidByte c₂)
    | some a, some b => (((a <<< 4) ||| b) :: ·) <$> hexDecode rest

/-- The digits `hex.EncodeToString` writes are ASCII, one byte each. -/
theorem utf8EncodeChar_hexDigit : ∀ n < 16,
    String.utf8EncodeChar (Protocol.hexDigit n) = [UInt8.ofNat (Protocol.hexDigit n).toNat] := by
  decide

/-- The bytes of `hex.EncodeToString bs`: two digits a byte, the high half first. -/
theorem hexString_bytes (bs : List UInt8) :
    (Protocol.hexString bs).toByteArray.data.toList =
      bs.flatMap fun b => [UInt8.ofNat (Protocol.hexDigit (b.toNat / 16)).toNat,
        UInt8.ofNat (Protocol.hexDigit (b.toNat % 16)).toNat] := by
  rw [Protocol.hexString, String.toByteArray_ofList, List.utf8Encode, List.toList_data_toByteArray,
    List.flatMap_assoc]
  refine List.flatMap_congr fun b _ => ?_
  have hb := b.toNat_lt
  rw [List.flatMap_cons, List.flatMap_cons, List.flatMap_nil,
    utf8EncodeChar_hexDigit _ (by omega), utf8EncodeChar_hexDigit _ (Nat.mod_lt _ (by decide))]
  rfl

/-- A digit `hex.EncodeToString` writes reads back as its value. -/
theorem fromHexChar_hexDigit : ∀ d < 16,
    fromHexChar (UInt8.ofNat (Protocol.hexDigit d).toNat) = some (UInt8.ofNat d) := by
  decide

set_option maxRecDepth 4000 in
/-- A byte is its high half shifted over its low half. -/
theorem div_shiftLeft_or_mod : ∀ n < 256,
    (UInt8.ofNat (n / 16) <<< 4 ||| UInt8.ofNat (n % 16)) = UInt8.ofNat n := by
  decide

/-- `hex.DecodeString` reads back what `hex.EncodeToString` writes. -/
theorem hexDecode_hexString (bs : List UInt8) :
    hexDecode (Protocol.hexString bs).toByteArray.data.toList = .ok bs := by
  rw [hexString_bytes]
  induction bs with
  | nil => rfl
  | cons b bs ih =>
    have hb := b.toNat_lt
    have hbyte := div_shiftLeft_or_mod b.toNat hb
    rw [UInt8.ofNat_toNat] at hbyte
    rw [List.flatMap_cons, List.cons_append, List.cons_append, List.nil_append, hexDecode,
      fromHexChar_hexDigit _ (by omega), fromHexChar_hexDigit _ (Nat.mod_lt _ (by decide))]
    simp only [ih, hbyte, Except.map_ok]

/-- `copy(xPub[:], pubKey)`: the decoded key's first 64 bytes over the zero `XPub`. -/
def copyXPub (pubKey : List UInt8) : Chainkd.XPub :=
  ⟨pubKey.take 64 ++ List.replicate (64 - pubKey.length) 0, by
    simp only [List.length_append, List.length_take, List.length_replicate]
    omega⟩

/-- `XPub.Verify`: the signature checked against the public key, the first 32 bytes. -/
def xpubVerify (xpub : Chainkd.XPub) (msg sig : List UInt8) : Bool :=
  c.ed25519Verify (xpub.bytes.take 32) msg sig

/-- `verifyBlockSignature`: the validator the checkpoint schedules at the header's time signed the
header's hash with the block witness. `GetValidator` panics on a checkpoint without validators,
and a nil validator, when none has the order due, is read and panics. -/
def verifyBlockSignature (checkpoint : Protocol.Checkpoint) (b : BlockHeader) :
    Except BlockError Unit :=
  match checkpoint.getValidator c.casperConfig b.timestamp with
  | .error _ => .error .panic
  | .ok none => .error .panic
  | .ok (some validator) =>
    match hexDecode validator.pubKey.toByteArray.data.toList with
    | .error e => .error (.hex e)
    | .ok pubKey =>
      if xpubVerify c (copyXPub pubKey) (c.headerHash b).bytes b.blockWitness then .ok ()
      else .error .blockSignature

/-- `ValidateBlockHeader`. -/
def validateBlockHeader (b parent : BlockHeader) (checkpoint : Protocol.Checkpoint) :
    Except BlockError Unit := do
  if b.version ≠ 1 then throw .versionRegression
  if b.height ≠ uint64 (parent.height + 1) then throw .misorderedBlockHeight
  if c.headerHash parent ≠ b.previousBlockHash then throw .mismatchedBlock
  checkBlockTime c b parent
  verifyBlockSignature c checkpoint b

theorem checkBlockTime_eq_ok {b parent : BlockHeader} :
    checkBlockTime c b parent = .ok () ↔
      uint64 (parent.timestamp + c.params.blockTimeInterval) ≤ b.timestamp ∧
      b.timestamp ≤ uint64 (c.now + c.params.maxTimeOffsetMs) := by
  unfold checkBlockTime
  by_cases h₁ : b.timestamp < uint64 (parent.timestamp + c.params.blockTimeInterval)
  · simp only [if_pos h₁, reduceCtorEq, false_iff, not_and, not_le]
    omega
  by_cases h₂ : b.timestamp > uint64 (c.now + c.params.maxTimeOffsetMs)
  · simp only [if_neg h₁, if_pos h₂, reduceCtorEq, false_iff, not_and, not_le]
    omega
  · simp only [if_neg h₁, if_neg h₂, true_iff]
    omega

/-- The signature passes exactly when the checkpoint has a validator due at the header's time,
whose key decodes and verifies the block witness over the header's hash. -/
theorem verifyBlockSignature_eq_ok {checkpoint : Protocol.Checkpoint} {b : BlockHeader} :
    verifyBlockSignature c checkpoint b = .ok () ↔
      ∃ validator pubKey,
        checkpoint.getValidator c.casperConfig b.timestamp = .ok (some validator) ∧
        hexDecode validator.pubKey.toByteArray.data.toList = .ok pubKey ∧
        xpubVerify c (copyXPub pubKey) (c.headerHash b).bytes b.blockWitness = true := by
  unfold verifyBlockSignature
  split
  · rename_i hv
    simp [hv]
  · rename_i hv
    simp [hv]
  · rename_i validator hv
    split
    · rename_i hd
      simp [hv, hd]
    · rename_i pubKey hd
      split <;> simp [*]

/-- What a header `ValidateBlockHeader` accepts is, check by check. -/
theorem validateBlockHeader_eq_ok {b parent : BlockHeader} {checkpoint : Protocol.Checkpoint} :
    validateBlockHeader c b parent checkpoint = .ok () ↔
      b.version = 1 ∧ b.height = uint64 (parent.height + 1) ∧
      b.previousBlockHash = c.headerHash parent ∧
      uint64 (parent.timestamp + c.params.blockTimeInterval) ≤ b.timestamp ∧
      b.timestamp ≤ uint64 (c.now + c.params.maxTimeOffsetMs) ∧
      ∃ validator pubKey,
        checkpoint.getValidator c.casperConfig b.timestamp = .ok (some validator) ∧
        hexDecode validator.pubKey.toByteArray.data.toList = .ok pubKey ∧
        xpubVerify c (copyXPub pubKey) (c.headerHash b).bytes b.blockWitness = true := by
  unfold validateBlockHeader
  by_cases h₁ : b.version = 1
  · by_cases h₂ : b.height = uint64 (parent.height + 1)
    · by_cases h₃ : c.headerHash parent = b.previousBlockHash
      · -- every guard passes: what is left is the time check and the signature
        simp only [h₁, h₂, h₃, ne_eq, not_true_eq_false, if_false, true_and]
        rw [Except.bind_eq_ok]
        constructor
        · rintro ⟨⟨⟩, ht, hs⟩
          obtain ⟨ht₁, ht₂⟩ := (checkBlockTime_eq_ok c).mp ht
          exact ⟨ht₁, ht₂, (verifyBlockSignature_eq_ok c).mp hs⟩
        · rintro ⟨ht₁, ht₂, hs⟩
          exact ⟨(), (checkBlockTime_eq_ok c).mpr ⟨ht₁, ht₂⟩, (verifyBlockSignature_eq_ok c).mpr hs⟩
      · simp [h₁, h₂, h₃, Ne.symm h₃, throw, throwThe, MonadExceptOf.throw, bind, Except.bind]
    · simp [h₁, h₂, throw, throwThe, MonadExceptOf.throw, bind, Except.bind]
  · simp [h₁, throw, throwThe, MonadExceptOf.throw, bind, Except.bind]

end Header

/-! ## The coinbase -/

/-- `checkoutRewardCoinbase`'s loop: every output but a first one of amount zero adds its amount,
as a `uint64`, to its control program's total. -/
def coinbasePayouts (outputs : List TxOutput) : AList fun _ : List UInt8 => Nat :=
  outputs.zipIdx.foldl
    (fun outputMap p =>
      if p.2 = 0 ∧ p.1.amount = 0 then outputMap
      else GoMap.add TxOutput.controlProgram TxOutput.amount (2 ^ 64) outputMap p.1)
    ∅

/-- `checkoutRewardCoinbase`, against the checkpoint's `Rewards`. -/
def checkoutRewardCoinbase (tx : TxData) (rewards : AList fun _ : List UInt8 => Nat) :
    Except BlockError Unit :=
  let outputMap := coinbasePayouts tx.outputs
  if outputMap.entries.length ≠ rewards.entries.length then .error (.wrongCoinbase .outputNumber)
  else if rewards.entries.all fun e => (outputMap.lookup e.1).getD 0 == e.2 then .ok ()
  else .error (.wrongCoinbase .outputAmount)

/-- `checkCoinbaseAmount`: the coinbase pays only original outputs of KUSK, one of amount zero
outside the first block of an epoch, and the checkpoint's rewards in it. -/
def checkCoinbaseAmount (params : BlockParams) (b : Types.Block)
    (rewards : AList fun _ : List UInt8 => Nat) : Except BlockError Unit :=
  match b.transactions with
  | [] => .error (.wrongCoinbase .blockEmpty)
  | tx :: _ =>
    if tx.outputs.any fun o => o.typedOutput.outputType ≠ originalOutputType ∨ o.assetId ≠ kuskAssetID
    then .error (.wrongCoinbase .outputTypeOrAsset)
    else if b.header.height % params.blocksOfEpoch ≠ 1 then
      -- `len(tx.Outputs) != 1 || tx.Outputs[0].Amount != 0`
      match tx.outputs with
      | [o] => if o.amount ≠ 0 then .error (.wrongCoinbase .outputNumberOrAmount) else .ok ()
      | _ => .error (.wrongCoinbase .outputNumberOrAmount)
    else checkoutRewardCoinbase tx rewards

/-- The outputs `checkoutRewardCoinbase` counts: all but a first one of amount zero. -/
def rewardOutputs : List TxOutput → List TxOutput
  | [] => []
  | o :: rest => if o.amount = 0 then rest else o :: rest

/-- Past the first output, every output is counted. -/
theorem foldl_payouts_zipIdx_succ (n : Nat) :
    ∀ (outputs : List TxOutput) (m : AList fun _ : List UInt8 => Nat),
      (outputs.zipIdx (n + 1)).foldl
          (fun outputMap p =>
            if p.2 = 0 ∧ p.1.amount = 0 then outputMap
            else GoMap.add TxOutput.controlProgram TxOutput.amount (2 ^ 64) outputMap p.1) m =
        outputs.foldl (GoMap.add TxOutput.controlProgram TxOutput.amount (2 ^ 64)) m
  | [], _ => rfl
  | o :: rest, m => by
    rw [List.zipIdx_cons, List.foldl_cons, List.foldl_cons, if_neg (by omega)]
    exact foldl_payouts_zipIdx_succ (n + 1) rest _

/-- The coinbase's map is the tally of the outputs it counts. -/
theorem coinbasePayouts_eq (outputs : List TxOutput) :
    coinbasePayouts outputs =
      GoMap.tally TxOutput.controlProgram TxOutput.amount (2 ^ 64) (rewardOutputs outputs) := by
  cases outputs with
  | nil => rfl
  | cons o rest =>
    rw [coinbasePayouts, List.zipIdx_cons, List.foldl_cons, foldl_payouts_zipIdx_succ 0 rest,
      rewardOutputs, GoMap.tally]
    by_cases ho : o.amount = 0
    · rw [if_pos ⟨rfl, ho⟩, if_pos ho]
    · rw [if_neg (fun h => ho h.2), if_neg ho, List.foldl_cons]

/-- Two maps with the same entries pass Go's comparison, and a map that passes it against
positive rewards is the rewards. -/
theorem checkoutRewardCoinbase_eq_ok_iff {tx : TxData} {rewards : AList fun _ : List UInt8 => Nat}
    (hpos : ∀ cp a, rewards.lookup cp = some a → 0 < a) :
    checkoutRewardCoinbase tx rewards = .ok () ↔
      ∀ cp, (coinbasePayouts tx.outputs).lookup cp = rewards.lookup cp := by
  unfold checkoutRewardCoinbase
  dsimp only
  constructor
  · intro hok
    split at hok
    · cases hok
    rename_i hlen
    split at hok
    · rename_i hall
      -- every reward is in the tally, and the tally has no more entries
      have hsub : ∀ cp a, rewards.lookup cp = some a →
          (coinbasePayouts tx.outputs).lookup cp = some a := by
        intro cp a ha
        have he := List.all_eq_true.mp hall ⟨cp, a⟩ (AList.mem_lookup_iff.mp ha)
        have hget : ((coinbasePayouts tx.outputs).lookup cp).getD 0 = a := by simpa using he
        cases hl : (coinbasePayouts tx.outputs).lookup cp with
        | none =>
          rw [hl, Option.getD_none] at hget
          exact absurd hget (Nat.ne_of_lt (hpos cp a ha))
        | some v => rw [hl, Option.getD_some] at hget; rw [hget]
      exact GoMap.lookup_eq_of_subset hsub (by omega)
    · cases hok
  · intro heq
    have hperm : (coinbasePayouts tx.outputs).entries.Perm rewards.entries :=
      List.lookup_ext (AList.nodupKeys _) (AList.nodupKeys _) fun k v => by
        rw [← AList.lookup, ← AList.lookup, heq]
    rw [if_neg (by rw [hperm.length_eq]; exact not_not.mpr rfl), if_pos]
    rw [List.all_eq_true]
    intro e he
    rw [heq, AList.mem_lookup_iff.mpr he]
    simp

/-- With every reward positive, the coinbase of the first block of an epoch passes
`checkoutRewardCoinbase` exactly when each control program's reward is the `uint64` sum of the
counted outputs that pay it, and a program no counted output pays has no reward. -/
theorem checkoutRewardCoinbase_eq_ok {tx : TxData} {rewards : AList fun _ : List UInt8 => Nat}
    (hpos : ∀ cp a, rewards.lookup cp = some a → 0 < a) :
    checkoutRewardCoinbase tx rewards = .ok () ↔
      ∀ cp, rewards.lookup cp =
        if (rewardOutputs tx.outputs).any (fun o => o.controlProgram = cp) then
          some (uint64 (GoMap.sumAt TxOutput.controlProgram TxOutput.amount cp
            (rewardOutputs tx.outputs)))
        else none := by
  rw [checkoutRewardCoinbase_eq_ok_iff hpos]
  simp only [coinbasePayouts_eq, GoMap.lookup_tally, uint64, eq_comm]

/-- An original output of `amount` units of KUSK to `program`. -/
def kuskOutput (program : List UInt8) (amount : Nat) : TxOutput :=
  { assetVersion := 1, commitmentSuffix := [], typedOutput := .original
    outputCommitment :=
      { assetAmount := ⟨kuskAssetID, amount⟩, vmVersion := 1, controlProgram := program
        stateData := [] } }

/-- A coinbase with a first output of zero and two outputs of 3 and 4 units to one program. -/
def splitCoinbase : TxData :=
  { version := 1, serializedSize := 1, timeRange := 0, inputs := []
    outputs := [kuskOutput [0x51] 0, kuskOutput [0x52] 3, kuskOutput [0x52] 4] }

/-- A reward of 7 units to the program the coinbase pays twice. -/
def splitRewards : AList fun _ : List UInt8 => Nat := (∅ : AList fun _ : List UInt8 => Nat).insert [0x52] 7

theorem splitRewards_pos : ∀ cp a, splitRewards.lookup cp = some a → 0 < a := by
  intro cp a ha
  by_cases hc : cp = [0x52]
  · subst hc
    simp only [splitRewards, AList.lookup_insert, Option.some.injEq] at ha
    omega
  · rw [splitRewards, AList.lookup_insert_ne hc, AList.lookup_empty] at ha
    cases ha

theorem checkoutRewardCoinbase_splitCoinbase :
    (∀ cp a, splitRewards.lookup cp = some a → 0 < a) ∧
    (checkoutRewardCoinbase splitCoinbase splitRewards = .ok () ↔
      ∀ cp, splitRewards.lookup cp =
        if (rewardOutputs splitCoinbase.outputs).any (fun o => o.controlProgram = cp) then
          some (uint64 (GoMap.sumAt TxOutput.controlProgram TxOutput.amount cp
            (rewardOutputs splitCoinbase.outputs)))
        else none) :=
  ⟨splitRewards_pos, checkoutRewardCoinbase_eq_ok splitRewards_pos⟩

/-- What a block's coinbase passes `checkCoinbaseAmount` with, against positive rewards: the
block has a first transaction, whose outputs are all original outputs of KUSK; outside the first
block of an epoch it has one output, of amount zero, and in the first block its tally is the
rewards. -/
theorem checkCoinbaseAmount_eq_ok {params : BlockParams} {b : Types.Block}
    {rewards : AList fun _ : List UInt8 => Nat} (hpos : ∀ cp a, rewards.lookup cp = some a → 0 < a) :
    checkCoinbaseAmount params b rewards = .ok () ↔
      ∃ tx rest, b.transactions = tx :: rest ∧
        (∀ o ∈ tx.outputs, o.typedOutput = .original ∧ o.assetId = kuskAssetID) ∧
        (b.header.height % params.blocksOfEpoch ≠ 1 → ∃ o, tx.outputs = [o] ∧ o.amount = 0) ∧
        (b.header.height % params.blocksOfEpoch = 1 →
          ∀ cp, (coinbasePayouts tx.outputs).lookup cp = rewards.lookup cp) := by
  unfold checkCoinbaseAmount
  split
  · rename_i hb
    simp [hb]
  rename_i tx rest hb
  have hkind : (tx.outputs.any fun o =>
      decide (o.typedOutput.outputType ≠ originalOutputType ∨ o.assetId ≠ kuskAssetID)) = false ↔
      ∀ o ∈ tx.outputs, o.typedOutput = .original ∧ o.assetId = kuskAssetID := by
    simp [TypedOutput.outputType_eq_original]
  by_cases hk : ∀ o ∈ tx.outputs, o.typedOutput = .original ∧ o.assetId = kuskAssetID
  swap
  · -- an output of another type or asset
    have hany := mt hkind.mp hk
    rw [if_pos (by simpa only [Bool.not_eq_false] using hany)]
    simp only [reduceCtorEq, false_iff, not_exists, not_and]
    intro tx' rest' hb' hk'
    rw [hb, List.cons.injEq] at hb'
    exact absurd (hb'.1 ▸ hk') hk
  rw [if_neg (by rw [hkind.mpr hk]; exact Bool.false_ne_true)]
  by_cases he : b.header.height % params.blocksOfEpoch = 1
  · -- the first block of an epoch pays the rewards
    rw [if_neg (not_not.mpr he), checkoutRewardCoinbase_eq_ok_iff hpos]
    constructor
    · intro hcp
      exact ⟨tx, rest, hb, hk, fun hne => absurd he hne, fun _ => hcp⟩
    · rintro ⟨tx', rest', hb', -, -, hcp⟩
      rw [hb, List.cons.injEq] at hb'
      exact hb'.1 ▸ hcp he
  · -- outside the first block of an epoch: one output, of amount zero
    rw [if_pos he]
    split
    · rename_i o ho
      by_cases ha : o.amount = 0 <;> simp [ha, hb, hk, he, ho]
    · rename_i hne
      simp only [reduceCtorEq, false_iff, not_exists, not_and]
      intro tx' rest' hb' _ hone
      rw [hb, List.cons.injEq] at hb'
      obtain ⟨o, ho, -⟩ := hone he
      exact absurd (hb'.1 ▸ ho) (hne o)

/-! ## The gas of the block -/

/-- Go's `uint64(x)` of an `int64` `x`: its 64 bits read without a sign. -/
def uint64OfInt64 (x : Int) : Nat := (x % 2 ^ 64).toNat

theorem uint64OfInt64_of_nonneg {x : Int} (h₀ : 0 ≤ x) (h₁ : x ≤ maxInt64) :
    uint64OfInt64 x = x.toNat := by
  unfold uint64OfInt64
  rw [Int.emod_eq_of_lt h₀ (by unfold maxInt64 at h₁; omega)]

/-- `ValidateBlock`'s loop over the results of `ValidateTxs`: the first error, with its index and
the number `n` of transactions, or the first `uint64` sum of `GasUsed` above `MaxBlockGas`. -/
def checkBlockGas (n : Nat) : Nat → Nat → List (Except ValidationError GasState) →
    Except BlockError Unit
  | _, _, [] => .ok ()
  | i, _, .error e :: _ => .error (.tx i n e)
  | i, blockGasSum, .ok g :: rest =>
    let blockGasSum := uint64 (blockGasSum + uint64OfInt64 g.gasUsed)
    if blockGasSum > maxBlockGas then .error .overBlockLimit
    else checkBlockGas n (i + 1) blockGasSum rest

/-- Results that start with a valid one are all valid when the rest are. -/
theorem exists_map_ok_cons {g : GasState} {rest : List (Except ValidationError GasState)}
    {P : List GasState → Prop} :
    (∃ gs : List GasState, Except.ok g :: rest = gs.map .ok ∧ P gs) ↔
      ∃ gs : List GasState, rest = gs.map .ok ∧ P (g :: gs) := by
  constructor
  · rintro ⟨_ | ⟨g', gs⟩, hgs, hP⟩
    · cases hgs
    · simp only [List.map_cons, List.cons.injEq, Except.ok.injEq] at hgs
      obtain ⟨rfl, rfl⟩ := hgs
      exact ⟨gs, rfl, hP⟩
  · rintro ⟨gs, rfl, hP⟩
    exact ⟨g :: gs, rfl, hP⟩

/-- From a sum within the limit, with every `GasUsed` a non-negative `int64`, the loop accepts
exactly when every result is valid and the sum with all their `GasUsed` is within the limit. -/
theorem checkBlockGas_eq_ok_of_le {n : Nat} :
    ∀ {i s : Nat} {rs : List (Except ValidationError GasState)}, s ≤ maxBlockGas →
      (∀ g, .ok g ∈ rs → 0 ≤ g.gasUsed ∧ g.gasUsed ≤ maxInt64) →
      (checkBlockGas n i s rs = .ok () ↔
        ∃ gs : List GasState, rs = gs.map .ok ∧ (s : Int) + (gs.map GasState.gasUsed).sum ≤ maxBlockGas)
  | _, s, [], hs, _ => by
    simp only [checkBlockGas, true_iff]
    exact ⟨[], rfl, by simpa using hs⟩
  | _, _, .error e :: _, _, _ => by
    simp only [checkBlockGas, reduceCtorEq, false_iff, not_exists, not_and]
    intro gs hgs
    cases gs <;> simp at hgs
  | i, s, .ok g :: rest, hs, hgas => by
    obtain ⟨hg₀, hg₁⟩ := hgas g List.mem_cons_self
    have hrest : ∀ g', .ok g' ∈ rest → 0 ≤ g'.gasUsed ∧ g'.gasUsed ≤ maxInt64 :=
      fun g' hg' => hgas g' (List.mem_cons_of_mem _ hg')
    -- the sum stays below `2 ^ 64`, so the `uint64` wrap does nothing
    have hwrap : uint64 (s + uint64OfInt64 g.gasUsed) = s + g.gasUsed.toNat := by
      rw [uint64OfInt64_of_nonneg hg₀ hg₁, uint64, Nat.mod_eq_of_lt]
      unfold maxBlockGas at hs
      unfold maxInt64 at hg₁
      omega
    simp only [checkBlockGas, hwrap, exists_map_ok_cons, List.map_cons, List.sum_cons]
    by_cases hover : s + g.gasUsed.toNat > maxBlockGas
    · simp only [hover, if_true, reduceCtorEq, false_iff, not_exists, not_and]
      rintro gs rfl hsum
      have hnonneg : 0 ≤ (gs.map GasState.gasUsed).sum :=
        List.sum_nonneg fun x hx => by
          obtain ⟨g', hg', rfl⟩ := List.mem_map.mp hx
          exact (hrest g' (List.mem_map_of_mem hg')).1
      omega
    · rw [if_neg hover, checkBlockGas_eq_ok_of_le (by omega) hrest]
      refine exists_congr fun gs => and_congr_right fun _ => ?_
      omega

/-- With the `GasUsed` of every valid transaction a non-negative `int64`, `ValidateBlock`'s loop
accepts exactly when every transaction is valid and their `GasUsed` add up to at most
`MaxBlockGas`. -/
theorem checkBlockGas_eq_ok {n : Nat} {rs : List (Except ValidationError GasState)}
    (hgas : ∀ g, .ok g ∈ rs → 0 ≤ g.gasUsed ∧ g.gasUsed ≤ maxInt64) :
    checkBlockGas n 0 0 rs = .ok () ↔
      ∃ gs : List GasState, rs = gs.map .ok ∧ (gs.map GasState.gasUsed).sum ≤ maxBlockGas := by
  rw [checkBlockGas_eq_ok_of_le (Nat.zero_le _) hgas]
  simp

/-- Two valid transactions of 600 and 400 gas fit in a block. -/
example : checkBlockGas 2 0 0 [.ok ⟨0, 0, 600, 0⟩, .ok ⟨0, 0, 400, 0⟩] = .ok () := by
  decide

/-! ## The transactions -/

section Txs

variable (h : Hasher) (converter : Bytes → Option Bytes)
  (verify : Context → Int → Option (Int × Option VMError)) (fuel : Nat)

/-- `validateTxWorker`'s work on transaction `i`: `ValidateTx`, the transaction at index zero as
the block's first. -/
def validateTxWork (block : Block) (i : Nat) (tx : Tx) : Except ValidationError GasState :=
  validateTx h converter verify fuel tx block (i = 0)

/-- The number of goroutines `ValidateTxs` starts: `i <= NumCPU() && i < len(txs)`. -/
def validateWorkerNum (numCPU txSize : Nat) : Nat := min (numCPU + 1) txSize

/-- `ValidateTxs` when its goroutines start: no work sent, idle workers, empty channels. -/
def validateTxsStart (block : Block) (numCPU : Nat) : WorkerPool.Pool Tx (Except ValidationError GasState) :=
  WorkerPool.init block.transactions (validateWorkerNum numCPU block.transactions.length)

/-- A hasher that hashes everything to zero, for runs that hash nothing. -/
def zeroHasher : Hasher := ⟨fun _ => Hash.zero, fun _ => Hash.zero, fun _ => Hash.zero⟩

/-- A transaction of version 1 without entries. -/
def bareTx : Tx := ⟨⟨1, 1, 0, []⟩, Hash.zero, [], [], []⟩

/-- A block of two such transactions. -/
def twoTxBlock : Block := ⟨1, 1, [bareTx, bareTx]⟩

/-- Every interleaving of `ValidateTxs`' goroutines has at most four steps a transaction, can be
carried on until the main routine has received every result, and then holds in slot `i` the
result of `ValidateTx` on transaction `i`: the results `validateTxs` lists. -/
theorem validateTxs_pool (block : Block) (numCPU : Nat) {as : List WorkerPool.Action}
    {s : WorkerPool.Pool Tx (Except ValidationError GasState)}
    (hrun : WorkerPool.run block.transactions (validateTxWork h converter verify fuel block)
      (validateTxsStart block numCPU) as = some s) :
    as.length ≤ 4 * block.transactions.length ∧
    (∃ more s', WorkerPool.run block.transactions (validateTxWork h converter verify fuel block) s
      more = some s' ∧ s'.received = block.transactions.length) ∧
    (s.received = block.transactions.length →
      s.stored = (validateTxs h converter verify fuel block).mapIdx fun i r => some (i, r)) := by
  have hI := (WorkerPool.inv_init block.transactions (validateTxWork h converter verify fuel block)
    (validateWorkerNum numCPU block.transactions.length)).run hrun
  refine ⟨?_, hI.exists_run ?_, fun hr => ?_⟩
  · -- the potential starts at `4 n` and every step lowers it
    have hpot := WorkerPool.run_potential hrun
    rw [validateTxsStart, WorkerPool.potential_init] at hpot
    omega
  · intro hn
    simp only [validateWorkerNum]
    omega
  · rw [hI.stored_eq hr, validateTxs, List.mapIdx_mapIdx]
    rfl

/-- Both works sent, each taken by one of the two goroutines, the second finished first, and both
results received. -/
def twoTxSchedule : List WorkerPool.Action :=
  [.send, .send, .take 0, .take 1, .finish 1, .finish 0, .receive, .receive]

/-- On a machine of one CPU, two goroutines validate the two transactions; the second finishes
first, and the main routine still stores each result in its own slot. -/
theorem validateTxs_pool_twoTxBlock :
    ∃ s, WorkerPool.run twoTxBlock.transactions
        (validateTxWork zeroHasher (fun _ => none) (fun _ _ => none) 1 twoTxBlock)
        (validateTxsStart twoTxBlock 1) twoTxSchedule = some s ∧
      s.stored =
        (validateTxs zeroHasher (fun _ => none) (fun _ _ => none) 1 twoTxBlock).mapIdx
          fun i r => some (i, r) :=
  ⟨_, rfl, (@validateTxs_pool zeroHasher (fun _ => none) (fun _ _ => none) 1 twoTxBlock 1
    twoTxSchedule _ rfl).2.2 rfl⟩

/-! ## The block -/

variable (c : BlockContext)

/-- `MapBlock`, with what validation reads: the header's version and height and each
transaction's `bc.Tx`, which `NewTx` maps as the block is decoded; `none` where that panics. -/
def mapBlock (b : Types.Block) : Option Block := do
  let transactions ← b.transactions.mapM (mapTx h)
  pure { version := b.header.version, height := b.header.height, transactions }

/-- `TxMerkleRoot`: the Merkle root of the transactions' IDs. -/
def txMerkleRoot (transactions : List Tx) : Hash :=
  Merkle.merkleRoot c.leafHash c.interiorHash c.emptyHash (transactions.map Tx.id)

/-- `ValidateBlock`, against the parent's header, the checkpoint and its `Rewards`. -/
def validateBlock (b : Types.Block) (parent : BlockHeader) (checkpoint : Protocol.Checkpoint)
    (rewards : AList fun _ : List UInt8 => Nat) : Except BlockError Unit := do
  validateBlockHeader c b.header parent checkpoint
  let some bcBlock := mapBlock h b | throw .panic
  checkBlockGas b.transactions.length 0 0 (validateTxs h converter verify fuel bcBlock)
  checkCoinbaseAmount c.params b rewards
  if txMerkleRoot c bcBlock.transactions ≠ b.header.transactionsMerkleRoot then
    throw .mismatchedMerkleRoot

/-- `ValidateBlock` accepts a block exactly when each of its checks passes, in Go's order. -/
theorem validateBlock_eq_ok {b : Types.Block} {parent : BlockHeader}
    {checkpoint : Protocol.Checkpoint} {rewards : AList fun _ : List UInt8 => Nat} :
    validateBlock h converter verify fuel c b parent checkpoint rewards = .ok () ↔
      validateBlockHeader c b.header parent checkpoint = .ok () ∧
      ∃ bcBlock, mapBlock h b = some bcBlock ∧
        checkBlockGas b.transactions.length 0 0 (validateTxs h converter verify fuel bcBlock) =
          .ok () ∧
        checkCoinbaseAmount c.params b rewards = .ok () ∧
        txMerkleRoot c bcBlock.transactions = b.header.transactionsMerkleRoot := by
  unfold validateBlock
  rw [Except.bind_eq_ok]
  constructor
  · rintro ⟨⟨⟩, hhead, hrest⟩
    refine ⟨hhead, ?_⟩
    cases hmap : mapBlock h b with
    | none => simp [hmap, throw, throwThe, MonadExceptOf.throw] at hrest
    | some bcBlock =>
      simp only [hmap] at hrest
      obtain ⟨⟨⟩, hgas, hrest⟩ := Iff.mp Except.bind_eq_ok hrest
      obtain ⟨⟨⟩, hcb, hroot⟩ := Iff.mp Except.bind_eq_ok hrest
      refine ⟨bcBlock, rfl, hgas, hcb, ?_⟩
      by_contra hne
      simp [hne, throw, throwThe, MonadExceptOf.throw] at hroot
  · rintro ⟨hhead, bcBlock, hmap, hgas, hcb, hroot⟩
    refine ⟨(), hhead, ?_⟩
    simp only [hmap]
    rw [Except.bind_eq_ok]
    refine ⟨(), hgas, Iff.mpr Except.bind_eq_ok ⟨(), hcb, ?_⟩⟩
    simp [hroot, pure, Except.pure]

/-- With positive rewards and the `GasUsed` of every valid transaction a non-negative `int64`,
`ValidateBlock` accepts a block exactly when its header is of version 1, one above its parent,
names the parent's hash, is timed inside the window and signed by the validator the checkpoint
schedules at its time, whose key is hex;
every transaction maps and validates, the first as the coinbase, with their `GasUsed` within
`MaxBlockGas` in all, and the header commits to the Merkle root of their IDs; and the coinbase
pays only original outputs of KUSK, one of amount zero outside the first block of an epoch and
exactly the rewards in it. -/
theorem validateBlock_accepts {b : Types.Block} {parent : BlockHeader}
    {checkpoint : Protocol.Checkpoint} {rewards : AList fun _ : List UInt8 => Nat}
    (hpos : ∀ cp a, rewards.lookup cp = some a → 0 < a)
    (hgas : ∀ bcBlock, mapBlock h b = some bcBlock →
      ∀ g, .ok g ∈ validateTxs h converter verify fuel bcBlock →
        0 ≤ g.gasUsed ∧ g.gasUsed ≤ maxInt64) :
    validateBlock h converter verify fuel c b parent checkpoint rewards = .ok () ↔
      (b.header.version = 1 ∧ b.header.height = uint64 (parent.height + 1) ∧
        b.header.previousBlockHash = c.headerHash parent ∧
        uint64 (parent.timestamp + c.params.blockTimeInterval) ≤ b.header.timestamp ∧
        b.header.timestamp ≤ uint64 (c.now + c.params.maxTimeOffsetMs) ∧
        ∃ validator pubKey,
          checkpoint.getValidator c.casperConfig b.header.timestamp = .ok (some validator) ∧
          hexDecode validator.pubKey.toByteArray.data.toList = .ok pubKey ∧
          xpubVerify c (copyXPub pubKey) (c.headerHash b.header).bytes
            b.header.blockWitness = true) ∧
      (∃ bcBlock, ∃ gs : List GasState, mapBlock h b = some bcBlock ∧
        validateTxs h converter verify fuel bcBlock = gs.map .ok ∧
        (gs.map GasState.gasUsed).sum ≤ maxBlockGas ∧
        txMerkleRoot c bcBlock.transactions = b.header.transactionsMerkleRoot) ∧
      (∃ tx rest, b.transactions = tx :: rest ∧
        (∀ o ∈ tx.outputs, o.typedOutput = .original ∧ o.assetId = kuskAssetID) ∧
        (b.header.height % c.params.blocksOfEpoch ≠ 1 → ∃ o, tx.outputs = [o] ∧ o.amount = 0) ∧
        (b.header.height % c.params.blocksOfEpoch = 1 →
          ∀ cp, (coinbasePayouts tx.outputs).lookup cp = rewards.lookup cp)) := by
  rw [validateBlock_eq_ok, validateBlockHeader_eq_ok, ← checkCoinbaseAmount_eq_ok hpos]
  constructor
  · rintro ⟨hhead, bcBlock, hmap, hgasOk, hcb, hroot⟩
    obtain ⟨gs, hgs, hsum⟩ := (checkBlockGas_eq_ok (hgas bcBlock hmap)).mp hgasOk
    exact ⟨hhead, ⟨bcBlock, gs, hmap, hgs, hsum, hroot⟩, hcb⟩
  · rintro ⟨hhead, ⟨bcBlock, gs, hmap, hgs, hsum, hroot⟩, hcb⟩
    exact ⟨hhead, bcBlock, hmap, (checkBlockGas_eq_ok (hgas bcBlock hmap)).mpr ⟨gs, hgs, hsum⟩,
      hcb, hroot⟩

/-- The main network at time 6000, with a signature check that accepts the public key itself as
its signature, and a Merkle tree whose root is its first leaf. -/
def sampleBlockContext : BlockContext :=
  { params := mainNetBlockParams, now := 6000, headerHash := fun _ => Hash.zero
    casperConfig := Protocol.mainNetCasperConfig, ed25519Verify := fun pk _ sig => sig == pk
    leafHash := id, interiorHash := fun l _ => l, emptyHash := Hash.zero }

/-- An extended key of 64 bytes. -/
def sampleXPub : List UInt8 := List.replicate 32 7 ++ List.replicate 32 9

/-- The genesis checkpoint once the key has the votes a main network validator needs; `applyVotes`
keys the votes by `hex.EncodeToString` of the key. -/
def votedCheckpoint : Protocol.Checkpoint :=
  { Protocol.genesisCheckpoint 0 0 with
    votes := [(Protocol.hexString sampleXPub, Protocol.mainNetCasperConfig.minValidatorVoteNum)] }

/-- A coinbase input with one byte of arbitrary data. -/
def sampleCoinbaseInput : TxInput :=
  { assetVersion := 1, typedInput := some (.coinbase ⟨[1]⟩), commitmentSuffix := []
    witnessSuffix := [] }

/-- A coinbase that pays `splitRewards`: a zero output, then 3 and 4 units to one program. -/
def rewardCoinbase : TxData := { splitCoinbase with inputs := [sampleCoinbaseInput] }

/-- The first block after genesis, the first of an epoch, produced at 6000 by the voted validator:
its witness is the key's public half, and its header commits to the coinbase's ID. -/
def rewardBlock : Types.Block :=
  { header :=
      { version := 1, height := 1, previousBlockHash := Hash.zero, timestamp := 6000
        blockWitness := sampleXPub.take 32, supLinks := []
        transactionsMerkleRoot :=
          txMerkleRoot sampleBlockContext ([rewardCoinbase].filterMap (mapTx sampleHasher)) }
    transactions := [rewardCoinbase] }

set_option maxRecDepth 10000 in
/-- The block is accepted after the voted checkpoint with the rewards its coinbase pays. -/
theorem validateBlock_accepts_rewardBlock :
    validateBlock sampleHasher (fun _ => none) sampleVerify 4 sampleBlockContext rewardBlock
      BlockHeader.zero votedCheckpoint splitRewards = .ok () := by
  obtain ⟨bc, hmap, hvs, hroot⟩ : ∃ bc, mapBlock sampleHasher rewardBlock = some bc ∧
      validateTxs sampleHasher (fun _ => none) sampleVerify 4 bc = [.ok GasState.zero] ∧
      txMerkleRoot sampleBlockContext bc.transactions =
        rewardBlock.header.transactionsMerkleRoot :=
    ⟨_, rfl, by decide +kernel, by decide +kernel⟩
  -- the coinbase uses no gas
  have hgas : ∀ bcBlock, mapBlock sampleHasher rewardBlock = some bcBlock →
      ∀ g, .ok g ∈ validateTxs sampleHasher (fun _ => none) sampleVerify 4 bcBlock →
        0 ≤ g.gasUsed ∧ g.gasUsed ≤ maxInt64 := by
    intro bcBlock hb g hg
    rw [hmap, Option.some.injEq] at hb
    subst hb
    rw [hvs, List.mem_singleton, Except.ok.injEq] at hg
    subst hg
    decide
  -- the voted validator is the one effective validator, due at 6000, and its key decodes back
  have heff : votedCheckpoint.effectiveValidators Protocol.mainNetCasperConfig =
      [⟨Protocol.hexString sampleXPub, 0, Protocol.mainNetCasperConfig.minValidatorVoteNum⟩] := rfl
  obtain ⟨validator, hv, -, hget⟩ := @Protocol.getValidator_of_ne_nil Protocol.mainNetCasperConfig
    votedCheckpoint (by decide) (by rw [heff]; exact List.cons_ne_nil _ _) 6000 (by decide)
    (by decide)
  rw [heff, List.mem_singleton] at hv
  subst hv
  have hsig : ∃ validator pubKey,
      votedCheckpoint.getValidator sampleBlockContext.casperConfig rewardBlock.header.timestamp =
        .ok (some validator) ∧
      hexDecode validator.pubKey.toByteArray.data.toList = .ok pubKey ∧
      xpubVerify sampleBlockContext (copyXPub pubKey)
        (sampleBlockContext.headerHash rewardBlock.header).bytes
        rewardBlock.header.blockWitness = true :=
    ⟨_, sampleXPub, hget, hexDecode_hexString sampleXPub, by decide⟩
  have hcb : checkoutRewardCoinbase rewardCoinbase splitRewards = .ok () := by decide
  refine (validateBlock_accepts sampleHasher (fun _ => none) sampleVerify 4 sampleBlockContext
    splitRewards_pos hgas).mpr ⟨⟨rfl, rfl, rfl, by decide, by decide, hsig⟩,
      ⟨bc, [GasState.zero], hmap, hvs, by decide, hroot⟩,
      ⟨rewardCoinbase, [], rfl, by decide, fun hne => absurd rfl hne, fun _ => ?_⟩⟩
  exact (checkoutRewardCoinbase_eq_ok_iff splitRewards_pos).mp hcb

end Txs

end KuskCore.Validation
