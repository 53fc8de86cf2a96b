import KuskCore.Validation.Conservation

/-!
# `CHECKOUTPUT` on a retirement

`entryContext.checkOutput` compares a retirement's state data, `[][]byte{}`, with the VM's alt
stack under `bytesEqual`, which tells `nil` from an empty slice. The alt stack is `nil` until
something is pushed onto it, so a program that never touched the alt stack is told that no
retirement matches (`entryCheckOutput_retirement_nil`), while the same program after a push and
a pop, with an alt stack as empty as before, is told that it does (`checkOutput_retirement_altStack`).
-/

namespace KuskCore.Validation

open KuskCore.Bc KuskCore.Types KuskCore.Vm

section Nil

variable (entries : List (Hash × Entry)) (index amount : Nat) (assetID : Bytes) (vmVersion : Nat)
  (code : Bytes) (expansion : Bool)

/-- Against a `nil` state, a retirement never matches. -/
theorem checkEntry_retirement_nil (r : Retirement) :
    checkEntry amount assetID vmVersion code none expansion (.retirement r) = .ok false := by
  simp [checkEntry, outputMatches, bytesEqual]

/-- With a `nil` alt stack, an input's `CHECKOUTPUT` at an index whose mux destination is a
retirement answers `false`, whatever the other arguments. -/
theorem entryCheckOutput_retirement_nil {entry : Entry} {d : ValueDestination} {m : Mux}
    {dest : ValueDestination} {r : Retirement} (hin : entry.body.isInput = true)
    (hd : entry.destination? = some d)
    (hm : entries.lookup d.ref = some (.mux m)) (hdest : m.witnessDestinations[index]? = some dest)
    (hr : entries.lookup dest.ref = some (.retirement r)) :
    entryCheckOutput entries entry index amount assetID vmVersion code none expansion =
      .ok false := by
  have hmux : checkMux entries index amount assetID vmVersion code none expansion m = .ok false := by
    simp only [checkMux, hdest, hr, checkEntry_retirement_nil]
  have hcheck : checkDestination entries index amount assetID vmVersion code none expansion
      (some d) = .ok false := by
    simp only [checkDestination, hm, hmux]
  cases entry with
  | issuance i =>
    simp only [Entry.destination?] at hd
    simp only [entryCheckOutput, hd, hcheck]
  | spend s =>
    simp only [Entry.destination?] at hd
    simp only [entryCheckOutput, hd, hcheck]
  | vetoInput v =>
    simp only [Entry.destination?] at hd
    simp only [entryCheckOutput, hd, hcheck]
  | _ => simp [Entry.body, EntryBody.isInput] at hin

end Nil

/-! ## The two runs -/

def retirementID : Hash := natHash 2

def retirementMuxID : Hash := natHash 1

/-- A retirement of 5 units of KUSK, the mux's only destination. -/
def retirement5 : Retirement := { source := ⟨retirementMuxID, ⟨kuskAssetID, 5⟩, 0⟩, ordinal := 0 }

def retirementMux : Mux :=
  { sources := [], program := ⟨1, [Op.op1]⟩
    witnessDestinations := [⟨retirementID, ⟨kuskAssetID, 5⟩, 0⟩] }

/-- An issuance of the 5 units into the mux. -/
def retirementIssuance : Issuance :=
  { nonceHash := natHash 3, value := ⟨kuskAssetID, 5⟩
    witnessDestination := some ⟨retirementMuxID, ⟨kuskAssetID, 5⟩, 0⟩
    witnessAssetDefinition := ⟨⟨1, [Op.op1]⟩, natHash 4⟩, witnessArguments := [], ordinal := 0 }

def retirementEntries : List (Hash × Entry) :=
  [(retirementID, .retirement retirement5), (retirementMuxID, .mux retirementMux)]

/-- `CHECKOUTPUT` of index 0, 5 units of KUSK, VM version 0 and empty code: the retirement. -/
def checkRetirement : Bytes :=
  [Op.op0, 0x55, Op.data32] ++ kuskAssetID.bytes ++ [Op.op0, Op.op0, 0xc1]

/-- The issuance's context, running `code`. -/
def retirementContext (code : Bytes) : Context :=
  { spendContext code [] [] with
    checkOutput := some (entryCheckOutput retirementEntries (.issuance retirementIssuance)) }

/-- Asked about the retirement it names, `CHECKOUTPUT` answers `false` from a VM whose alt stack
was never pushed, so the program fails, and `true` after `0 TOALTSTACK FROMALTSTACK DROP` has left
the alt stack empty again, so the program passes. -/
theorem checkOutput_retirement_altStack :
    verify constCrypto (retirementContext checkRetirement) 12 1000 =
        some (971, some .falseVMResult) ∧
      verify constCrypto (retirementContext ([Op.op0, 0x6b, 0x6c, Op.drop] ++ checkRetirement)) 16
        1000 = some (964, none) :=
  ⟨by decide +kernel, by decide +kernel⟩

end KuskCore.Validation
