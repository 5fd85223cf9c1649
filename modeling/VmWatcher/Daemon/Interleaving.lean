import VmWatcher.Daemon.Apply
import VmWatcher.Ebpf.Classifier
import VmWatcher.Misc.Trace

/-!
# Packets between the map operations of the engine

A packet reaches the limit maps twice in `police`: it copies the policy out of
`LIMIT_POLICIES`, and later it looks up its state entry and updates that under the entry's
lock. The engine changes the maps one operation at a time. Here both take turns in any
order, and any number of packets is between their two accesses.

The history says what nobody in the code keeps: which policies were armed for a flow, in
order, and for which of these installations a state entry was last written fresh.
-/

namespace VmWatcher

/-! ### The two accesses of a packet -/

namespace EbpfMaps

/-- `police` up to its lookup of the state: the copied policy, if it comes to a lookup.
`swl_police` looks at the window before. -/
def readPolicy (inserts : Inserts) (ipv4 : UInt32) (direction : UInt8) (lenBytes : ℕ)
    (m : EbpfMaps) : EbpfMaps × Option LimitPolicy :=
  match m.limits.policies ⟨ipv4, direction⟩ with
  | none => (m, none)
  | some policy =>
    if policy.enabled = 0 ∨ policy.rateBps = 0 then
      (m, none)
    else if lenBytes = 0 then
      (m, none)
    else if lenBytes > maxPolicedLen then
      (m.recordOversized inserts direction lenBytes, none)
    else if policy.algorithm = algoSlidingWindowLog ∧ policy.windowNs = 0 then
      (m, none)
    else
      (m, some policy)

/-- `police` from its lookup of the state on, under the policy it has copied. -/
def policeUnder (inserts : Inserts) (key : LimitKey) (policy : LimitPolicy) (lenBytes now : ℕ)
    (m : EbpfMaps) : EbpfMaps × Bool :=
  if policy.algorithm = algoSlidingWindowLog then
    m.swlPolice inserts key policy lenBytes now
  else
    match m.limits.limitState key with
    | none => (m, false)
    | some state =>
      let (state, conform) := (policeState policy state now lenBytes).val
      let stepped := { m with limits.limitState := m.limits.limitState.insert key state }
      (stepped.recordVerdict inserts key lenBytes conform, !conform)

/-- A packet that nothing comes between is policed as by `police`. -/
theorem police_eq_policeUnder (inserts : Inserts) (ipv4 : UInt32) (direction : UInt8)
    (lenBytes now : ℕ) (m : EbpfMaps) :
    m.police inserts ipv4 direction lenBytes now =
      match m.readPolicy inserts ipv4 direction lenBytes with
      | (m, none) => (m, false)
      | (m, some policy) => m.policeUnder inserts ⟨ipv4, direction⟩ policy lenBytes now := by
  unfold police readPolicy
  dsimp only
  cases m.limits.policies ⟨ipv4, direction⟩ with
  | none => rfl
  | some policy =>
    dsimp only
    by_cases ring : policy.algorithm = algoSlidingWindowLog
    · by_cases zero : policy.windowNs = 0
      · simp only [ring, zero, true_and, if_true, swlPolice]
        split_ifs <;> rfl
      · simp only [ring, zero, true_and, if_true, if_false]
        split_ifs
        · rfl
        · rfl
        · rfl
        · exact (if_pos ring).symm
    · simp only [ring, false_and, if_false]
      split_ifs
      · rfl
      · rfl
      · rfl
      · exact (if_neg ring).symm

end EbpfMaps

/-! ### The history -/

/-- The policies that were armed for a flow, oldest first, and the installation that the
entry of a flow in a state map was last written fresh for, counted from zero. -/
structure LimitHistory where
  armed : LimitKey → List LimitPolicy
  freshFor : LimitKey → Artifact → ℕ

namespace LimitHistory

/-- Nothing was armed yet. -/
def start : LimitHistory := ⟨fun _ => [], fun _ _ => 0⟩

/-- What a successful operation adds to the history. Fresh state is for the installation
that is armed next. -/
def note (h : LimitHistory) : MapOp → LimitHistory
  | .armPolicy key policy =>
    { h with armed := Function.update h.armed key (h.armed key ++ [policy]) }
  | .writeFreshState key algorithm =>
    { h with
      freshFor := Function.update h.freshFor key
        (Function.update (h.freshFor key) (artifactOf algorithm) (h.armed key).length) }
  | _ => h

end LimitHistory

/-! ### Taking turns -/

/-- A packet that has copied its policy and not yet looked up its state. -/
structure InFlight where
  key : LimitKey
  policy : LimitPolicy
  lenBytes : ℕ
  /-- Which installation of the flow the policy was read from. -/
  install : ℕ

/-- What the engine runs as one transaction. -/
inductive Transaction where
  | limits (actions : List LimitAction)
  | reload (actions : List LimitAction) (oldPrefixes newPrefixes : List Cidr)

namespace Transaction

def actions : Transaction → List LimitAction
  | limits actions => actions
  | reload actions _ _ => actions

def tx : Transaction → Tx Unit
  | limits actions => runLimitActions actions
  | reload actions oldPrefixes newPrefixes => applyReloadSteps actions oldPrefixes newPrefixes

end Transaction

/-- No flow has its limit both removed and installed. -/
def Separate (actions : List LimitAction) : Prop :=
  ∀ a ∈ actions, ∀ b ∈ actions, a.isRemove = true → b.isRemove = false → a.key ≠ b.key

instance (actions : List LimitAction) : Decidable (Separate actions) :=
  inferInstanceAs (Decidable (∀ a ∈ actions, ∀ b ∈ actions, _ → _ → _))

/-- The engine's transaction, the maps and the packets between their accesses. -/
structure Interleaving where
  engine : Prog (Except (AnyError × RollbackReport) Unit)
  maps : EbpfMaps
  history : LimitHistory
  inFlight : List InFlight

inductive TurnEvent where
  /-- The engine begins a transaction once it is done with the one before. -/
  | begin (transaction : Transaction)
  /-- Its next operation succeeds. -/
  | succeed
  /-- Its next operation fails. -/
  | fail (error : AnyError)
  /-- A packet copies its policy. -/
  | arrive (inserts : Inserts) (ipv4 : UInt32) (direction : UInt8) (lenBytes : ℕ)
  /-- A packet looks up its state and updates it. -/
  | update (inserts : Inserts) (index now : ℕ)

namespace Interleaving

/-- The daemon has started: no limit is armed and no state is there. -/
def start (m : EbpfMaps) : Interleaving where
  engine := .done (.ok ())
  maps := { m with
    limits.policies := Table.empty
    limits.limitState := Table.empty
    limits.swlLog := Table.empty }
  history := .start
  inFlight := []

/-- One turn. -/
def step (s : Interleaving) : TurnEvent → Option Interleaving
  | .begin transaction =>
    match s.engine with
    | .done _ =>
      if Separate transaction.actions then some { s with engine := transact transaction.tx }
      else none
    | .call _ _ => none
  | .succeed =>
    match s.engine with
    | .done _ => none
    | .call op next =>
      let r := MapOp.exec op s.maps.limits
      some { s with
        engine := next (.ok r.1)
        maps.limits := r.2
        history := s.history.note op }
  | .fail error =>
    match s.engine with
    | .done _ => none
    | .call _ next => some { s with engine := next (.error error) }
  | .arrive inserts ipv4 direction lenBytes =>
    let r := s.maps.readPolicy inserts ipv4 direction lenBytes
    let key : LimitKey := ⟨ipv4, direction⟩
    let copied := r.2.map fun policy =>
      (⟨key, policy, lenBytes, (s.history.armed key).length - 1⟩ : InFlight)
    some { s with maps := r.1, inFlight := s.inFlight ++ copied.toList }
  | .update inserts index now =>
    match s.inFlight[index]? with
    | none => none
    | some f => some { s with
        maps := (s.maps.policeUnder inserts f.key f.policy f.lenBytes now).1
        inFlight := s.inFlight.eraseIdx index }

end Interleaving

end VmWatcher
