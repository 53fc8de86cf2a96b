import KuskCore.Casper.ApplyBlock

/-!
# Runs of Casper

The calls Casper takes from outside: `ApplyBlock` from the chain, `AuthVerification` from the
network, and `authCachedMsg` from its own loop over the votes that waited for their target. A call
that fails keeps what it changed before it failed, as Go's does.

A state is reachable when a sequence of calls leads to it from the state `NewChain` starts Casper
in: the genesis checkpoint, justified, as the root.
-/

namespace KuskCore.Protocol

/-- The calls a run is made of. -/
inductive Action where
  | applyBlock (block : Block)
  | authVerification (msg : ValidCasperSignMsg)
  | authCachedMsg (msg : ValidCasperSignMsg)
  deriving DecidableEq

section Run

variable (env : NodeEnv)

/-- A call; the loop takes only votes that are waiting in the cache. -/
def Action.run : Action → CasperM Unit
  | .applyBlock block => ApplyBlock env block
  | .authVerification msg => AuthVerification env.toCasperEnv msg
  | .authCachedMsg msg => do
    if msg ∈ (← get).verificationCache then Protocol.authCachedMsg env.toCasperEnv msg

/-- The state after a call, whether it failed or not. -/
def Casper.after (s : Casper) (a : Action) : Casper :=
  match (a.run env).run s with
  | .ok _ s' => s'
  | .error _ s' => s'

/-- The state after a sequence of calls. -/
def Casper.afterAll (s : Casper) (as : List Action) : Casper := as.foldl (Casper.after env) s

/-- The genesis checkpoint of `initChainStatus`. -/
def genesisCheckpoint (hash timestamp : Nat) : Checkpoint where
  height := 0
  hash := hash
  parentHash := 0
  timestamp := timestamp
  status := .justified
  votes := []
  supLinks := []

/-- `NewCasper` on the genesis checkpoint alone. -/
def Casper.init (genesis : Checkpoint) : Casper := ⟨[genesis], genesis.hash, []⟩

/-- The states a run from genesis reaches. -/
inductive Reachable (genesis : Checkpoint) : Casper → Prop
  | init : Reachable genesis (Casper.init genesis)
  | step {s : Casper} (a : Action) : Reachable genesis s → Reachable genesis (s.after env a)

theorem reachable_afterAll {genesis : Checkpoint} {s : Casper} (h : Reachable env genesis s)
    (as : List Action) : Reachable env genesis (s.afterAll env as) := by
  induction as generalizing s with
  | nil => exact h
  | cons a as ih => exact ih (Reachable.step a h)

end Run

end KuskCore.Protocol
