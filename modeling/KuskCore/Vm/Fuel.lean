import KuskCore.Vm.Step

/-!
# Fuel

Go runs `virtualMachine.run` until the program counter leaves the program; the model runs `loop`
with fuel and stops with `outOfFuel` when it is spent. The only place where the fuel reaches the
machine's behaviour is the child run of `CHECKPREDICATE`, which gets the fuel left. So one more unit
of fuel changes nothing about a run that did not run out (`loop_extends`), and neither does any
more (`loop_extends_of_le`): `Verify` gives the same answer at every fuel at which it gives one
(`verify_of_le`). With `EStateM.error_of_progress` this is also what shows that a program whose
run keeps coming back to the same kind of state never returns.
-/

namespace KuskCore.Vm

open GoInt KuskCore.Checked EStateM

variable (cr : Crypto) (ctx : Context)

/-- `CHECKPREDICATE` passes on a child that ran out; otherwise it only reads how the child ended. -/
theorem opCheckPredicate_extends {child child' : VmM Unit} (h : Extends .outOfFuel child child') :
    Extends .outOfFuel (opCheckPredicate child) (opCheckPredicate child') := by
  unfold opCheckPredicate
  refine extends_bind (extends_refl _) fun _ => ?_
  refine extends_bind (extends_refl _) fun _ => ?_
  refine extends_bind (extends_refl _) fun _ => ?_
  refine extends_bind (extends_refl _) fun _ => ?_
  refine extends_bind (extends_refl _) fun _ => ?_
  refine extends_bind (extends_refl _) fun vm => ?_
  refine extends_ite (extends_refl _) ?_
  refine extends_bind (extends_refl _) fun _ => ?_
  refine extends_bind (extends_refl _) fun vm' => ?_
  refine extends_bind (extends_refl _) fun _ => ?_
  dsimp only
  generalize childVM _ _ _ _ = cv
  intro s r hr hne
  -- how the child ended decides; one that ran out leaves the parent out of fuel too
  rcases hc : child cv with ⟨a, c⟩ | ⟨_ | _ | _, c⟩
  all_goals rw [hc] at hr
  · rw [show child' cv = .ok a c from h cv _ hc nofun]
    exact hr
  · rw [show child' cv = .error (.err _) c from h cv _ hc nofun]
    exact hr
  · rw [show child' cv = .error .panic c from h cv _ hc nofun]
    exact hr
  · exact absurd hr.symm (hne s)

/-- Of all opcodes only `CHECKPREDICATE` runs the child. -/
theorem opFn_extends {child child' : VmM Unit} (h : Extends .outOfFuel child child') (f : OpFn) :
    Extends .outOfFuel (opFn cr ctx child f) (opFn cr ctx child' f) := by
  cases f
  case opCheckPredicate => exact opCheckPredicate_extends h
  all_goals exact extends_refl _

theorem step_extends {child child' : VmM Unit} (h : Extends .outOfFuel child child') :
    Extends .outOfFuel (step cr ctx child) (step cr ctx child') := by
  unfold step
  refine extends_bind (extends_refl _) fun vm => ?_
  refine extends_bind (extends_refl _) fun inst => ?_
  refine extends_bind (extends_refl _) fun _ => extends_ite (extends_refl _) ?_
  refine extends_bind (extends_refl _) fun _ => ?_
  exact extends_bind (opFn_extends cr ctx h _) fun _ => extends_refl _

/-- One more unit of fuel changes nothing about a run that did not run out. -/
theorem loop_extends (k : Nat) : Extends .outOfFuel (loop cr ctx k) (loop cr ctx (k + 1)) := by
  induction k with
  | zero => exact extends_throw _
  | succ k ih =>
    -- the step's child and the rest of the loop both get one unit more
    rw [loop, loop]
    refine extends_bind (extends_refl _) fun _ => extends_bind (extends_refl _) fun _ => ?_
    refine extends_ite ?_ (extends_refl _)
    exact extends_bind (step_extends cr ctx (extends_seqRight (extends_refl _) ih)) fun _ => ih

theorem loop_extends_of_le {k k' : Nat} (hk : k ≤ k') :
    Extends .outOfFuel (loop cr ctx k) (loop cr ctx k') :=
  extends_of_le (loop_extends cr ctx) hk

/-- `Verify` gives the same answer at every fuel at which it gives one. -/
theorem verify_of_le {k k' : Nat} {gasLimit : Int} {r : Int × Option VMError} (hk : k ≤ k')
    (h : verify cr ctx k gasLimit = some r) : verify cr ctx k' gasLimit = some r := by
  unfold verify at h ⊢
  split at h
  · rw [if_pos (by assumption)]
    exact h
  · rw [if_neg (by assumption)]
    have hbody : Extends .outOfFuel (verifyBody cr ctx k) (verifyBody cr ctx k') := by
      unfold verifyBody run
      refine extends_bind (extends_refl _) fun _ => extends_bind (extends_refl _) fun _ => ?_
      refine extends_bind (extends_bind (extends_refl _) fun _ => loop_extends_of_le cr ctx hk) fun _ => ?_
      exact extends_refl _
    -- every answer but running out is an end of the body that more fuel keeps
    split at h <;> rename_i hrun
    case h_4 => cases h
    all_goals
      rw [hbody _ _ hrun nofun]
      exact h

end KuskCore.Vm
